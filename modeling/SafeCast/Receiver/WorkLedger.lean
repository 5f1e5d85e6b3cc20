import SafeCast.Library.Ledger
import SafeCast.Receiver.Window

/-! # The receiver's work ledger

The counters are updated in different phases of a call. `CallCounts` says what one call
adds to each of them; the ledger of a run is the sum over its calls. The steps counted for
a catch-up are computed from the frontier, the loop runs until the ratchet has passed the
generation: the two agree since the ratchet stands one past the frontier.
-/

namespace SafeCast

open Runs

/-- How often the loop of a catch-up to generation `g` steps the ratchet. -/
def catchUpSteps (c : Crypto) (g : ℕ) : ℕ → StreamRatchet → ℕ
  | 0, _ => 0
  | fuel + 1, ratchet =>
    if ratchet.generation ≤ g then catchUpSteps c g fuel (ratchet.nextKeySalt c).2 + 1 else 0

theorem generation_catchUp (c : Crypto) (k g fuel : ℕ) (ratchet : StreamRatchet)
    (derived : List (ℕ × KeySalt)) :
    (catchUp c k g fuel (ratchet, derived)).1.generation =
      ratchet.generation + catchUpSteps c g fuel ratchet := by
  induction fuel generalizing ratchet derived with
  | zero => rfl
  | succ fuel ih =>
    unfold catchUp catchUpSteps
    split_ifs
    · change (catchUp c k g fuel (ratchet.advance c, _)).1.generation =
        ratchet.generation + (catchUpSteps c g fuel (ratchet.advance c) + 1)
      rw [ih, show (ratchet.advance c).generation = ratchet.generation + 1 from rfl]
      omega
    · rfl

theorem catchUpSteps_moveTo {c : Crypto} {start : StreamRatchet} {g a m : ℕ}
    (ha : start.generation ≤ a) (hm : g + 1 = a + m) :
    catchUpSteps c g m (start.moveTo c a) = m := by
  have hsteps := generation_catchUp c 1 g m (start.moveTo c a) []
  rw [catchUp_moveTo ha hm] at hsteps
  simp only [StreamRatchet.moveTo_generation] at hsteps
  omega

/-- The steps of the plan's catch-up, as the call counts them. -/
def Plan.jump (p : Plan) : ℕ := p.pending.elim 0 PendingCatchup.jump

theorem RecvStats.countDrop_eq (stats : RecvStats) (d : RecvDrop) :
    ∃ behind seekCap replay auth,
      behind + seekCap + replay + auth =
        stats.dropsBehind + stats.dropsSeekCap + stats.dropsReplay + stats.dropsAuth + 1 ∧
      stats.countDrop d = { stats with
        dropsBehind := behind, dropsSeekCap := seekCap, dropsReplay := replay,
        dropsAuth := auth } := by
  cases d with
  | behindWindow => exact ⟨_, _, _, _, by omega, rfl⟩
  | seekCapExceeded => exact ⟨_, _, _, _, by omega, rfl⟩
  | srtpReplay => exact ⟨_, _, _, _, by omega, rfl⟩
  | authFail => exact ⟨_, _, _, _, by omega, rfl⟩

def RecvStats.drops (stats : RecvStats) : RecvDrop → ℕ
  | .behindWindow => stats.dropsBehind
  | .seekCapExceeded => stats.dropsSeekCap
  | .srtpReplay => stats.dropsReplay
  | .authFail => stats.dropsAuth

theorem RecvStats.drops_countDrop (stats : RecvStats) (d d' : RecvDrop) :
    (stats.countDrop d).drops d' = stats.drops d' + if d = d' then 1 else 0 := by
  cases d <;> cases d' <;> rfl

namespace ReceiverKeyManager

variable {σ : Type*} {ops : SrtpOps σ} {c : Crypto} {start : StreamRatchet} {k : ℕ}
  {r r' : ReceiverKeyManager σ} {buf : Bytes}

def ratchetSteps (c : Crypto) (r : ReceiverKeyManager σ) (buf : Bytes) : ℕ :=
  if buf.length < rtpHeaderLen then 0
  else
    match r.scheme.mapGeneration r.recovery buf with
    | .ok (.ok (g, _)) =>
      match r.classify g with
      | .ok (.ok (.ahead _)) => catchUpSteps c g (g + 1 - r.ratchet.generation) r.ratchet
      | _ => 0
    | _ => 0

def reachesDecryption (c : Crypto) (r : ReceiverKeyManager σ) (buf : Bytes) : Bool :=
  match r.plan c buf with
  | .ok (.ok _) => true
  | _ => false

theorem ratchetSteps_of_dropped {d : RecvDrop} (h : r.plan c buf = .ok (.error d)) :
    r.ratchetSteps c buf = 0 := by
  unfold plan at h
  unfold ratchetSteps
  split_ifs at h ⊢ with hlen
  · rfl
  split at h
  · cases h
  · rename_i hmap
    rw [hmap]
  · rename_i g estIndex hmap
    rw [hmap]
    dsimp only
    split at h
    · cases h
    · rename_i hplace
      rw [hplace]
    · split at h <;> cases h

theorem KeyWindow.plan_jump (hr : KeyWindow c start k r) {p : Plan}
    (h : r.plan c buf = .ok (.ok p)) :
    p.jump = r.ratchetSteps c buf ∧ p.jump ≤ r.seekCap ∧ (0 < p.jump ↔ p.pending ≠ none) ∧
      (r.adopt p).nextGeneration = r.nextGeneration + p.jump := by
  obtain ⟨hlen, hmap, placement, hplace, hfetch⟩ := plan_ok h
  unfold ratchetSteps Plan.jump ReceiverKeyManager.adopt
  rw [if_neg (not_lt.mpr hlen), hmap]
  dsimp only
  rw [hplace]
  cases placement with
  | inWindow ks =>
    obtain ⟨-, hnone⟩ := Prod.mk.inj (Except.ok.inj hfetch)
    rw [← hnone]
    exact ⟨rfl, Nat.zero_le _, by simp, rfl⟩
  | ahead jump =>
    obtain ⟨hcap, hle, hjump⟩ := classify_ahead hplace
    have hgen : r.ratchet.generation ≤ p.generation := hr.generation.trans_le hle
    rw [hr.fetchKey_ahead hgen] at hfetch
    obtain ⟨-, hsome⟩ := Prod.mk.inj (Except.ok.inj hfetch)
    have hsteps : catchUpSteps c p.generation (p.generation + 1 - r.ratchet.generation) r.ratchet =
        jump := by
      rw [hr.ratchet, StreamRatchet.moveTo_generation,
        catchUpSteps_moveTo hr.start_le (by omega), hr.generation]
      omega
    rw [← hsome]
    refine ⟨hsteps.symm, hcap, ?_, hjump⟩
    simp only [Option.elim_some, ne_eq, reduceCtorEq, not_false_eq_true, iff_true]
    omega

/-! ## What a call counts -/

theorem stats_countFetch (r : ReceiverKeyManager σ) (p : Plan) :
    (r.countFetch p).stats = { r.stats with
      cacheHits := r.stats.cacheHits + if p.pending = none then 1 else 0
      catchupSteps := r.stats.catchupSteps + p.jump
      maxCatchup := max r.stats.maxCatchup p.jump } := by
  unfold countFetch Plan.jump
  cases p.pending <;> simp

theorem stats_countWasted (r : ReceiverKeyManager σ) (p : Plan) :
    (r.countWasted p).stats = { r.stats with
      catchupStepsWasted := r.stats.catchupStepsWasted + p.jump } := by
  unfold countWasted Plan.jump
  cases p.pending <;> simp

theorem stats_install (r : ReceiverKeyManager σ) (p : Plan) :
    (r.install p).stats = { r.stats with
      installs := r.stats.installs + if r.installed = some p.generation then 0 else 1 } := by
  unfold install
  split_ifs <;> rfl

theorem unprotect_stats {out : Except RecvDrop ℕ × Bytes}
    (h : r.unprotect ops c buf = .ok (out, r')) :
    r'.seekCap = r.seekCap ∧
      ((∃ d, r.plan c buf = .ok (.error d) ∧ out.1 = .error d ∧ r'.frontier = r.frontier ∧
          r'.stats = r.stats.countDrop d) ∨
        ∃ p, r.plan c buf = .ok (.ok p) ∧
          ((∃ d, out.1 = .error d ∧ r'.frontier = r.frontier ∧
              r'.stats = (((r.countFetch p).install p).countWasted p).stats.countDrop d) ∨
            (out.1 = .ok p.generation ∧ r'.frontier = (r.adopt p).frontier ∧
              r'.stats = { ((r.countFetch p).install p).stats with
                decrypted := ((r.countFetch p).install p).stats.decrypted + 1 }))) := by
  unfold unprotect at h
  split at h
  · cases h
  · rename_i d hplan
    cases h
    exact ⟨rfl, .inl ⟨d, hplan, rfl, rfl, rfl⟩⟩
  · rename_i p hplan
    obtain ⟨stats, hprep⟩ := r.prepare_eq p
    have hcap : ((r.countFetch p).install p).seekCap = r.seekCap := by rw [hprep]
    have hfrontier : ((r.countFetch p).install p).frontier = r.frontier := by rw [hprep]
    unfold decrypt at h
    dsimp only at h
    split at h
    · cases h
      refine ⟨(adopt_seekCap _ p).trans hcap, .inr ⟨p, hplan, .inr ⟨rfl, ?_, ?_⟩⟩⟩
      · unfold finalize adopt
        cases p.pending with
        | none => exact hfrontier
        | some pending => rfl
      · unfold finalize adopt
        cases p.pending <;> rfl
    · split at h
      · rename_i d _
        cases h
        refine ⟨?_, .inr ⟨p, hplan, .inl ⟨d, rfl, ?_, ?_⟩⟩⟩
        · unfold countWasted countDrop
          cases p.pending <;> exact hcap
        · unfold countWasted countDrop
          cases p.pending <;> exact hfrontier
        · unfold countWasted countDrop
          cases p.pending <;> rfl
      · cases h

theorem decrypted_unprotect {out : Except RecvDrop ℕ × Bytes}
    (h : r.unprotect ops c buf = .ok (out, r')) :
    (∃ g, out.1 = .ok g ∧ r'.stats.decrypted = r.stats.decrypted + 1) ∨
      ∃ d, out.1 = .error d ∧ r'.stats.decrypted = r.stats.decrypted := by
  obtain ⟨-, ⟨d, -, hout, -, hstats⟩ | ⟨p, -, ⟨d, hout, -, hstats⟩ | ⟨hout, -, hstats⟩⟩⟩ :=
    unprotect_stats h
  · obtain ⟨_, _, _, _, -, hdrop⟩ := r.stats.countDrop_eq d
    exact .inr ⟨d, hout, by rw [hstats, hdrop]⟩
  · obtain ⟨_, _, _, _, -, hdrop⟩ :=
      (((r.countFetch p).install p).countWasted p).stats.countDrop_eq d
    refine .inr ⟨d, hout, ?_⟩
    rw [hstats, hdrop]
    simp only [stats_countWasted, stats_install, stats_countFetch]
  · refine .inl ⟨p.generation, hout, ?_⟩
    rw [hstats]
    simp only [stats_install, stats_countFetch]

theorem unprotect_drops {out : Except RecvDrop ℕ × Bytes}
    (h : r.unprotect ops c buf = .ok (out, r')) (d : RecvDrop) :
    r'.stats.drops d = r.stats.drops d + if out.1 = .error d then 1 else 0 := by
  obtain ⟨-, ⟨d', -, hout, -, hstats⟩ | ⟨p, -, ⟨d', hout, -, hstats⟩ | ⟨hout, -, hstats⟩⟩⟩ :=
    unprotect_stats h
  · rw [hstats, hout, RecvStats.drops_countDrop]
    simp only [Except.error.injEq]
  · rw [hstats, hout, RecvStats.drops_countDrop, stats_countWasted, stats_install,
      stats_countFetch]
    simp only [Except.error.injEq]
    cases d <;> rfl
  · rw [hstats, hout, stats_install, stats_countFetch]
    cases d <;> rfl

structure CallCounts (c : Crypto) (r : ReceiverKeyManager σ) (buf : Bytes)
    (r' : ReceiverKeyManager σ) : Prop where
  outcome : r'.stats.decrypted + r'.stats.dropsBehind + r'.stats.dropsSeekCap +
      r'.stats.dropsReplay + r'.stats.dropsAuth =
    r.stats.decrypted + r.stats.dropsBehind + r.stats.dropsSeekCap + r.stats.dropsReplay +
      r.stats.dropsAuth + 1
  steps : r'.stats.catchupSteps = r.stats.catchupSteps + r.ratchetSteps c buf
  steps_le : r.ratchetSteps c buf ≤ r.seekCap
  derived : r'.stats.catchupStepsWasted + r'.nextGeneration =
    r.stats.catchupStepsWasted + r.nextGeneration + r.ratchetSteps c buf
  maxCatchup : r'.stats.maxCatchup = max r.stats.maxCatchup (r.ratchetSteps c buf)
  fetch : r'.stats.cacheHits + (if 0 < r.ratchetSteps c buf then 1 else 0) =
    r.stats.cacheHits + (if r.reachesDecryption c buf then 1 else 0)
  installs : r'.stats.installs ≤ r.stats.installs + (if r.reachesDecryption c buf then 1 else 0)
  seekCap : r'.seekCap = r.seekCap

theorem KeyWindow.callCounts (hr : KeyWindow c start k r) {out : Except RecvDrop ℕ × Bytes}
    (h : r.unprotect ops c buf = .ok (out, r')) : CallCounts c r buf r' := by
  obtain ⟨hcap, ⟨d, hplan, -, hf, hstats⟩ | ⟨p, hplan, hcases⟩⟩ := unprotect_stats h
  · -- dropped before decryption
    have hreach : r.reachesDecryption c buf = false := by rw [reachesDecryption, hplan]
    have hzero := ratchetSteps_of_dropped hplan
    have hnext : r'.nextGeneration = r.nextGeneration := by rw [nextGeneration, hf]; rfl
    obtain ⟨behind, seekCap, replay, auth, hsum, hdrop⟩ := r.stats.countDrop_eq d
    rw [hdrop] at hstats
    constructor <;> simp only [hstats, hzero, hreach, hnext, hcap]
    · omega
    all_goals simp
  · have hreach : r.reachesDecryption c buf = true := by rw [reachesDecryption, hplan]
    obtain ⟨hsteps, hle, hpos, hadopt⟩ := hr.plan_jump hplan
    have hhit : (if p.pending = none then 1 else 0) + (if 0 < p.jump then 1 else 0) = 1 := by
      by_cases hnone : p.pending = none <;> simp [hpos, hnone]
    rcases hcases with ⟨d, -, hf, hstats⟩ | ⟨-, hf, hstats⟩
    · -- failed to decrypt: the catch-up is thrown away
      have hnext : r'.nextGeneration = r.nextGeneration := by rw [nextGeneration, hf]; rfl
      obtain ⟨behind, seekCap, replay, auth, hsum, hdrop⟩ :=
        (((r.countFetch p).install p).countWasted p).stats.countDrop_eq d
      rw [hdrop] at hstats
      simp only [stats_countWasted, stats_install, stats_countFetch] at hstats hsum
      constructor <;> simp only [hstats, ← hsteps, hreach, hnext, hcap, if_true]
      · omega
      · exact hle
      · omega
      · omega
      · split_ifs <;> omega
    · -- decrypted: the catch-up is adopted
      have hnext : r'.nextGeneration = r.nextGeneration + p.jump := by
        rw [← hadopt, nextGeneration, nextGeneration, hf]
      simp only [stats_install, stats_countFetch] at hstats
      constructor <;> simp only [hstats, ← hsteps, hreach, hnext, hcap, if_true]
      · omega
      · exact hle
      · omega
      · omega
      · split_ifs <;> omega

/-! ## The ledger of a run -/

structure WorkLedger (c : Crypto) (seekCap : ℕ)
    (ts : List (Transition (ReceiverKeyManager σ) Bytes (Except RecvDrop ℕ × Bytes)))
    (r : ReceiverKeyManager σ) : Prop where
  /-- Every call has one outcome. -/
  calls : ts.length = r.stats.decrypted + r.stats.dropsBehind + r.stats.dropsSeekCap +
    r.stats.dropsReplay + r.stats.dropsAuth
  /-- Every generation up to the frontier was usefully derived once. -/
  derived : r.stats.catchupSteps =
    r.stats.catchupStepsWasted + r.frontier.elim 0 (· + 1)
  /-- The steps a call performs are the ones it counts. -/
  steps : ∀ t ∈ ts, t.after.stats.catchupSteps =
      t.before.stats.catchupSteps + t.before.ratchetSteps c t.input ∧
    t.before.ratchetSteps c t.input ≤ seekCap
  maxCatchup : r.stats.maxCatchup =
    (ts.map fun t => t.after.stats.catchupSteps - t.before.stats.catchupSteps).foldl max 0
  fetches : ts.countP (fun t => t.before.reachesDecryption c t.input) = r.stats.cacheHits +
    ts.countP fun t => t.before.stats.catchupSteps < t.after.stats.catchupSteps
  installs : r.stats.installs ≤ ts.countP fun t => t.before.reachesDecryption c t.input

theorem workLedger_new {stream : Except SrtpError σ} {scheme : GenerationScheme} {k seekCap : ℕ}
    (h : new ops stream scheme start k seekCap = .ok r) :
    r.seekCap = seekCap ∧ WorkLedger c seekCap [] r := by
  obtain ⟨s, hk, -, -, rfl⟩ := new_ok h
  exact ⟨rfl, ⟨rfl, rfl, by simp, rfl, rfl, le_rfl⟩⟩

theorem WorkLedger.step {seekCap : ℕ}
    {ts : List (Transition (ReceiverKeyManager σ) Bytes (Except RecvDrop ℕ × Bytes))}
    {out : Except RecvDrop ℕ × Bytes} (h : WorkLedger c seekCap ts r) (hcap : r.seekCap = seekCap)
    (hcall : CallCounts c r buf r') : WorkLedger c seekCap (ts ++ [⟨r, buf, out, r'⟩]) r' := by
  have hsteps := hcall.steps
  have hderived := h.derived
  constructor
  · rw [List.length_append, List.length_singleton, h.calls, hcall.outcome]
  · have := hcall.derived
    simp only [nextGeneration] at this
    omega
  · intro t ht
    rcases List.mem_append.mp ht with ht | ht
    · exact h.steps t ht
    · obtain rfl := List.mem_singleton.mp ht
      exact ⟨hsteps, hcap ▸ hcall.steps_le⟩
  · rw [List.map_append, List.foldl_append, ← h.maxCatchup, hcall.maxCatchup]
    simp only [List.map_cons, List.map_nil, List.foldl_cons, List.foldl_nil]
    rw [hsteps, Nat.add_sub_cancel_left]
  · have := hcall.fetch
    simp only [List.countP_append, h.fetches, List.countP_singleton, hsteps,
      Nat.lt_add_right_iff_pos, decide_eq_true_eq]
    omega
  · have := hcall.installs
    have := h.installs
    simp only [List.countP_append, List.countP_singleton]
    omega

/-- The work ledger after every run from a fresh ratchet, whatever the buffers and the SRTP
outcomes. -/
theorem workLedger_of_run (ops : SrtpOps σ) (c : Crypto) (stream : Except SrtpError σ)
    (scheme : GenerationScheme) (k seekCap : ℕ) {ratchet : StreamRatchet}
    (hfresh : ratchet.generation = 0) {r₀ : ReceiverKeyManager σ}
    (hnew : new ops stream scheme ratchet k seekCap = .ok r₀) {bufs : List Bytes}
    {outs : List (Except RecvDrop ℕ × Bytes)}
    (hrun : run (ReceiverKeyManager.unprotect ops c) r₀ bufs = .ok (outs, r)) :
    (calls (ReceiverKeyManager.unprotect ops c) r₀ bufs).length = bufs.length ∧
      WorkLedger c seekCap (calls (ReceiverKeyManager.unprotect ops c) r₀ bufs) r := by
  refine ⟨length_calls hrun, ?_⟩
  have hlaw := run_ledger
    (fun ts r => KeyWindow c ratchet k r ∧ r.seekCap = seekCap ∧ WorkLedger c seekCap ts r) ?_ ?_
    hrun
  · exact hlaw.2.2
  · exact ⟨keyWindow_new hfresh hnew, workLedger_new hnew⟩
  · rintro ts r buf out r' ⟨hwindow, hcap, hledger⟩ h
    have hcall := hwindow.callCounts h
    exact ⟨hwindow.unprotect h, hcall.seekCap.trans hcap, hledger.step hcap hcall⟩

theorem workLedger_after_jump :
    ∃ r₀ outs r, new acceptAll (.ok ()) (.packet 0) ⟨ByteArr.replicate _ 0, 0⟩ 2 10 = .ok r₀ ∧
      run (ReceiverKeyManager.unprotect acceptAll Crypto.toy) r₀
        [[0x80, 96, 0, 5, 0, 0, 0, 0, 0, 0, 0, 7], [0x80, 96, 0, 4, 0, 0, 0, 0, 0, 0, 0, 7], []] =
          .ok (outs, r) ∧
      r.stats.catchupSteps = 6 ∧ r.stats.cacheHits = 1 ∧ r.stats.dropsAuth = 1 ∧
      WorkLedger Crypto.toy 10 (calls (ReceiverKeyManager.unprotect acceptAll Crypto.toy) r₀
        [[0x80, 96, 0, 5, 0, 0, 0, 0, 0, 0, 0, 7], [0x80, 96, 0, 4, 0, 0, 0, 0, 0, 0, 0, 7], []])
          r := by
  obtain ⟨r₀, h₀⟩ : ∃ r₀, new acceptAll (.ok ()) (.packet 0) ⟨ByteArr.replicate _ 0, 0⟩ 2 10 =
    .ok r₀ := ⟨_, rfl⟩
  obtain ⟨outs, r, hrun, hstats⟩ := exists_of_returns
    (x := run (ReceiverKeyManager.unprotect acceptAll Crypto.toy) r₀
      [[0x80, 96, 0, 5, 0, 0, 0, 0, 0, 0, 0, 7], [0x80, 96, 0, 4, 0, 0, 0, 0, 0, 0, 0, 7], []])
    (q := fun _ r => r.stats.catchupSteps = 6 ∧ r.stats.cacheHits = 1 ∧ r.stats.dropsAuth = 1)
    (by cases h₀; decide +kernel)
  obtain ⟨hsteps, hhits, hauth⟩ := of_decide_eq_true hstats
  exact ⟨r₀, outs, r, h₀, hrun, hsteps, hhits, hauth,
    (workLedger_of_run acceptAll Crypto.toy (.ok ()) (.packet 0) 2 10 rfl h₀ hrun).2⟩

end ReceiverKeyManager

end SafeCast
