import Mathlib.Data.Rat.Defs
import SafeCast.Library.Runs
import SafeCast.Simulation.Displacement

/-! # The simulated network

Every packet travels over one path or over two, as a copy that is lost or arrives after the
path's delay and a drawn jitter. The receiver gets the copy that arrives first. `disturb` sends
the packets, merges the copies and sorts what is left by arrival. The generator of the draws is
a parameter, so a result holds for every outcome of the draws.
-/

namespace SafeCast

open Runs SortByKey

/-- A generator of the draws: a double as a fraction, and a number in `0..=n`. -/
structure Rng (ρ : Type*) where
  seedFromU64 : ℕ → ρ
  random : ρ → ℚ × ρ
  randomRange : ℕ → ρ → ℕ × ρ
  randomRange_le : ∀ n g, (randomRange n g).1 ≤ n

inductive LossModel where
  | none
  | independent (p : ℚ)
  | gilbertElliott (pGoodToBad pBadToGood : ℚ)

structure PathConfig where
  baseDelayNs : ℕ
  jitterNs : ℕ
  loss : LossModel

structure NetworkConfig where
  pathA : PathConfig
  /-- The redundant path; none in single-path mode. -/
  pathB : Option PathConfig
  seed : ℕ

structure NetworkStats where
  sent : ℕ := 0
  delivered : ℕ := 0
  lostA : ℕ := 0
  lostB : ℕ := 0
  lostPackets : ℕ := 0
  winsA : ℕ := 0
  winsB : ℕ := 0
  duplicatesDropped : ℕ := 0
  displacement : DisplacementStats := {}
  deriving DecidableEq, Repr

structure LossState where
  model : LossModel
  inBad : Bool

variable {ρ : Type*}

namespace LossState

def new (model : LossModel) : LossState := ⟨model, false⟩

/-- Whether the next copy is lost. The state of a bursty path decides this copy and may flip
for the next one. -/
def nextLost (rng : Rng ρ) (l : LossState) (g : ρ) : Bool × LossState × ρ :=
  match l.model with
  | .none => (false, l, g)
  | .independent p =>
    let (x, g) := rng.random g
    (x < p, l, g)
  | .gilbertElliott pGoodToBad pBadToGood =>
    let lost := l.inBad
    let (x, g) := rng.random g
    if l.inBad then (lost, if x < pBadToGood then { l with inBad := false } else l, g)
    else (lost, if x < pGoodToBad then { l with inBad := true } else l, g)

end LossState

namespace PathConfig

/-- The jitter of the next copy, or none if the path loses it. -/
def drawJitter (rng : Rng ρ) (path : PathConfig) (l : LossState) (g : ρ) :
    Option ℕ × LossState × ρ :=
  let (lost, l, g) := l.nextLost rng g
  if lost then (none, l, g)
  else
    let (jitter, g) := rng.randomRange path.jitterNs g
    (some jitter, l, g)

def copyArrival (rng : Rng ρ) (path : PathConfig) (sendNs : ℕ) (l : LossState) (g : ρ) :
    Except Panic (Option ℕ × LossState × ρ) :=
  match path.drawJitter rng l g with
  | (none, l, g) => .ok (none, l, g)
  | (some jitter, l, g) =>
    if u64Max < sendNs + path.baseDelayNs + jitter then .error .overflow
    else .ok (some (sendNs + path.baseDelayNs + jitter), l, g)

end PathConfig

abbrev Copies := Option ℕ × Option ℕ

structure DrawState (ρ : Type*) where
  rng : ρ
  lossA : LossState
  lossB : Option LossState

structure NetworkRun (ρ : Type*) where
  draws : DrawState ρ
  schedule : List (ℕ × ℕ)
  stats : NetworkStats

namespace NetworkConfig

/-- The generator is seeded, and every path starts in its good state. -/
def startDraws (rng : Rng ρ) (cfg : NetworkConfig) : DrawState ρ :=
  ⟨rng.seedFromU64 cfg.seed, .new cfg.pathA.loss, cfg.pathB.map fun path => .new path.loss⟩

def copyArrivalB (rng : Rng ρ) (cfg : NetworkConfig) (sendNs : ℕ) (lossB : Option LossState)
    (g : ρ) : Except Panic (Option ℕ × Option LossState × ρ) :=
  match cfg.pathB, lossB with
  | some path, some l =>
    match path.copyArrival rng sendNs l g with
    | .error p => .error p
    | .ok (b, l, g) => .ok (b, some l, g)
  | _, _ => .ok (none, lossB, g)

/-- Count the copies of packet `i` and deliver the first one. -/
def merge (cfg : NetworkConfig) (i : ℕ) (schedule : List (ℕ × ℕ)) (stats : NetworkStats) :
    Copies → List (ℕ × ℕ) × NetworkStats
  | (none, none) =>
    (schedule, { stats with
      lostA := stats.lostA + 1
      lostB := if cfg.pathB.isSome then stats.lostB + 1 else stats.lostB
      lostPackets := stats.lostPackets + 1 })
  | (some t, none) =>
    (schedule ++ [(t, i)], { stats with
      lostB := if cfg.pathB.isSome then stats.lostB + 1 else stats.lostB
      winsA := stats.winsA + 1 })
  | (none, some t) =>
    (schedule ++ [(t, i)], { stats with
      lostA := stats.lostA + 1
      winsB := stats.winsB + 1 })
  | (some ta, some tb) =>
    (schedule ++ [(min ta tb, i)], { stats with
      winsA := if ta ≤ tb then stats.winsA + 1 else stats.winsA
      winsB := if ta ≤ tb then stats.winsB else stats.winsB + 1
      duplicatesDropped := stats.duplicatesDropped + 1 })

def sendPacket (rng : Rng ρ) (cfg : NetworkConfig) (sendNs : ℕ → Except Panic ℕ)
    (st : NetworkRun ρ) (i : ℕ) : Except Panic (Copies × NetworkRun ρ) :=
  match sendNs i with
  | .error p => .error p
  | .ok s =>
    match cfg.pathA.copyArrival rng s st.draws.lossA st.draws.rng with
    | .error p => .error p
    | .ok (a, lossA, g) =>
      match cfg.copyArrivalB rng s st.draws.lossB g with
      | .error p => .error p
      | .ok (b, lossB, g) =>
        let (schedule, stats) := cfg.merge i st.schedule st.stats (a, b)
        .ok ((a, b), ⟨⟨g, lossA, lossB⟩, schedule, stats⟩)

end NetworkConfig

/-- Send packets `0..n` through the network: the arrivals in order, and the counters. -/
def disturb (rng : Rng ρ) (n : ℕ) (sendNs : ℕ → Except Panic ℕ) (cfg : NetworkConfig) :
    Except Panic (List (ℕ × ℕ) × NetworkStats) :=
  match run (cfg.sendPacket rng sendNs) ⟨cfg.startDraws rng, [], { sent := n }⟩
    (List.range n) with
  | .error p => .error p
  | .ok (_, st) =>
    let schedule := sortByKey Prod.fst st.schedule
    match measureDisplacement schedule with
    | .error p => .error p
    | .ok displacement =>
      .ok (schedule, { st.stats with delivered := schedule.length, displacement := displacement })

/-! ## The copies of a packet -/

def survivors (c : Copies) : List ℕ := c.1.toList ++ c.2.toList

/-- Path B delivers the packet: its copy is alone, or strictly earlier. -/
def bFirst : Copies → Bool
  | (none, some _) => true
  | (some ta, some tb) => tb < ta
  | _ => false

namespace NetworkConfig

def drawJitterB (rng : Rng ρ) (cfg : NetworkConfig) (lossB : Option LossState) (g : ρ) :
    Option ℕ × Option LossState × ρ :=
  match cfg.pathB, lossB with
  | some path, some l =>
    let (b, l, g) := path.drawJitter rng l g
    (b, some l, g)
  | _, _ => (none, lossB, g)

def drawCopies (rng : Rng ρ) (cfg : NetworkConfig) (d : DrawState ρ) :
    (Option ℕ × Option ℕ) × DrawState ρ :=
  let (a, lossA, g) := cfg.pathA.drawJitter rng d.lossA d.rng
  let (b, lossB, g) := cfg.drawJitterB rng d.lossB g
  ((a, b), ⟨g, lossA, lossB⟩)

/-- The draws that are left for packet `i` and the packets after it. -/
def drawsFrom (rng : Rng ρ) (cfg : NetworkConfig) : ℕ → DrawState ρ
  | 0 => cfg.startDraws rng
  | i + 1 => (cfg.drawCopies rng (cfg.drawsFrom rng i)).2

def baseDelayB (cfg : NetworkConfig) : ℕ := cfg.pathB.elim 0 (·.baseDelayNs)

def arrivals (cfg : NetworkConfig) (s : ℕ) (jitters : Option ℕ × Option ℕ) : Copies :=
  (jitters.1.map (s + cfg.pathA.baseDelayNs + ·), jitters.2.map (s + cfg.baseDelayB + ·))

def copies (rng : Rng ρ) (cfg : NetworkConfig) (send : ℕ → ℕ) (i : ℕ) : Copies :=
  cfg.arrivals (send i) (cfg.drawCopies rng (cfg.drawsFrom rng i)).1

def Fits (c : Copies) : Prop := ∀ t ∈ survivors c, t ≤ u64Max

end NetworkConfig

theorem PathConfig.drawJitter_le {rng : Rng ρ} {path : PathConfig} {l : LossState} {g : ρ} {j : ℕ}
    (h : (path.drawJitter rng l g).1 = some j) : j ≤ path.jitterNs := by
  unfold PathConfig.drawJitter at h
  dsimp only at h
  split_ifs at h
  cases h
  exact rng.randomRange_le _ _

theorem PathConfig.copyArrival_eq (rng : Rng ρ) (path : PathConfig) (s : ℕ) (l : LossState)
    (g : ρ) :
    path.copyArrival rng s l g =
      if ∀ j ∈ (path.drawJitter rng l g).1, s + path.baseDelayNs + j ≤ u64Max then
        .ok ((path.drawJitter rng l g).1.map (s + path.baseDelayNs + ·),
          (path.drawJitter rng l g).2)
      else .error .overflow := by
  unfold PathConfig.copyArrival
  obtain ⟨j, l', g'⟩ := path.drawJitter rng l g
  cases j with
  | none => simp
  | some j =>
    simp only [Option.mem_some_iff, forall_eq']
    split_ifs with h₁ h₂ h₂
    · exact absurd h₂ (not_le.mpr h₁)
    · rfl
    · rfl
    · exact absurd (not_lt.mp h₁) h₂

namespace NetworkConfig

theorem drawJitterB_le {rng : Rng ρ} {cfg : NetworkConfig} {lossB : Option LossState} {g : ρ}
    {j : ℕ} (h : (cfg.drawJitterB rng lossB g).1 = some j) :
    ∃ path, cfg.pathB = some path ∧ j ≤ path.jitterNs := by
  unfold drawJitterB at h
  split at h
  case h_1 path l hpath => exact ⟨path, hpath, PathConfig.drawJitter_le h⟩
  case h_2 => cases h

theorem copyArrivalB_eq (rng : Rng ρ) (cfg : NetworkConfig) (s : ℕ) (lossB : Option LossState)
    (g : ρ) :
    cfg.copyArrivalB rng s lossB g =
      if ∀ j ∈ (cfg.drawJitterB rng lossB g).1, s + cfg.baseDelayB + j ≤ u64Max then
        .ok ((cfg.drawJitterB rng lossB g).1.map (s + cfg.baseDelayB + ·),
          (cfg.drawJitterB rng lossB g).2)
      else .error .overflow := by
  unfold copyArrivalB drawJitterB
  split
  case h_1 path l hpath =>
    have hbase : cfg.baseDelayB = path.baseDelayNs := by rw [baseDelayB, hpath, Option.elim_some]
    rw [hbase, PathConfig.copyArrival_eq]
    by_cases h : ∀ j ∈ (path.drawJitter rng l g).1, s + path.baseDelayNs + j ≤ u64Max
    · rw [if_pos h, if_pos h]
    · rw [if_neg h, if_neg h]
  case h_2 => simp

theorem fits_arrivals (cfg : NetworkConfig) (s : ℕ) (a b : Option ℕ) :
    Fits (cfg.arrivals s (a, b)) ↔
      (∀ j ∈ a, s + cfg.pathA.baseDelayNs + j ≤ u64Max) ∧
        ∀ j ∈ b, s + cfg.baseDelayB + j ≤ u64Max := by
  cases a <;> cases b <;> simp [Fits, survivors, arrivals, baseDelayB]

instance (c : Copies) : Decidable (Fits c) := inferInstanceAs (Decidable (∀ t ∈ _, t ≤ _))

theorem sendPacket_eq {rng : Rng ρ} {cfg : NetworkConfig} {sendNs : ℕ → Except Panic ℕ} {i s : ℕ}
    (hs : sendNs i = .ok s) (st : NetworkRun ρ) :
    cfg.sendPacket rng sendNs st i =
      if Fits (cfg.arrivals s (cfg.drawCopies rng st.draws).1) then
        .ok (cfg.arrivals s (cfg.drawCopies rng st.draws).1,
          ⟨(cfg.drawCopies rng st.draws).2,
            (cfg.merge i st.schedule st.stats (cfg.arrivals s (cfg.drawCopies rng st.draws).1)).1,
            (cfg.merge i st.schedule st.stats (cfg.arrivals s (cfg.drawCopies rng st.draws).1)).2⟩)
      else .error .overflow := by
  unfold sendPacket drawCopies
  simp only [hs, PathConfig.copyArrival_eq, copyArrivalB_eq, fits_arrivals]
  obtain ⟨a, lossA, g⟩ := cfg.pathA.drawJitter rng st.draws.lossA st.draws.rng
  by_cases ha : ∀ j ∈ a, s + cfg.pathA.baseDelayNs + j ≤ u64Max
  · simp only [if_pos ha]
    obtain ⟨b, lossB, g⟩ := cfg.drawJitterB rng st.draws.lossB g
    by_cases hb : ∀ j ∈ b, s + cfg.baseDelayB + j ≤ u64Max
    · simp only [if_pos hb, if_pos (And.intro ha hb)]
      rfl
    · simp only [if_neg hb, if_neg fun h : _ ∧ _ => hb h.2]
  · simp only [if_neg ha, if_neg fun h : _ ∧ _ => ha h.1]

theorem copies_within {rng : Rng ρ} {cfg : NetworkConfig} {send : ℕ → ℕ} {i t : ℕ} :
    ((cfg.copies rng send i).1 = some t →
        ∃ j ≤ cfg.pathA.jitterNs, t = send i + cfg.pathA.baseDelayNs + j) ∧
      ((cfg.copies rng send i).2 = some t →
        ∃ path, cfg.pathB = some path ∧
          ∃ j ≤ path.jitterNs, t = send i + path.baseDelayNs + j) := by
  unfold copies arrivals drawCopies
  dsimp only
  constructor
  · intro h
    obtain ⟨j, hj, rfl⟩ := Option.map_eq_some_iff.mp h
    exact ⟨j, PathConfig.drawJitter_le hj, rfl⟩
  · intro h
    obtain ⟨j, hj, rfl⟩ := Option.map_eq_some_iff.mp h
    obtain ⟨path, hpath, hle⟩ := drawJitterB_le hj
    refine ⟨path, hpath, j, hle, ?_⟩
    rw [baseDelayB, hpath, Option.elim_some]

def delivered (rng : Rng ρ) (cfg : NetworkConfig) (send : ℕ → ℕ) (n : ℕ) : List (ℕ × ℕ) :=
  (List.range n).filterMap fun i => (survivors (cfg.copies rng send i)).min?.map (·, i)

structure Sent (rng : Rng ρ) (cfg : NetworkConfig) (send : ℕ → ℕ) (n : ℕ) (st : NetworkRun ρ) :
    Prop where
  draws : st.draws = cfg.drawsFrom rng n
  schedule : st.schedule = cfg.delivered rng send n
  lost : st.schedule.length + st.stats.lostPackets = n
  wins : st.stats.winsA + st.stats.winsB = st.schedule.length
  winsB : st.stats.winsB = (List.range n).countP fun i => bFirst (cfg.copies rng send i)
  dual : cfg.pathB.isSome →
    st.stats.duplicatesDropped + st.stats.lostA + st.stats.lostB = n + st.stats.lostPackets
  single : cfg.pathB = none →
    st.stats.lostB = 0 ∧ st.stats.winsB = 0 ∧ st.stats.duplicatesDropped = 0 ∧
      st.stats.lostA = st.stats.lostPackets

theorem sent_zero (rng : Rng ρ) (cfg : NetworkConfig) (send : ℕ → ℕ) (n : ℕ) :
    Sent rng cfg send 0 ⟨cfg.startDraws rng, [], { sent := n }⟩ :=
  ⟨rfl, rfl, rfl, rfl, rfl, fun _ => rfl, fun _ => ⟨rfl, rfl, rfl, rfl⟩⟩

variable {rng : Rng ρ} {cfg : NetworkConfig} {send : ℕ → ℕ} {n : ℕ} {st : NetworkRun ρ}

theorem merge_spec (cfg : NetworkConfig) (i : ℕ) (schedule : List (ℕ × ℕ)) (stats : NetworkStats)
    (c : Copies) (hsingle : cfg.pathB = none → c.2 = none) :
    ∃ schedule' stats', cfg.merge i schedule stats c = (schedule', stats') ∧
      schedule' = schedule ++ ((survivors c).min?.map (·, i)).toList ∧
      schedule'.length + stats'.lostPackets = schedule.length + stats.lostPackets + 1 ∧
      stats'.winsA + stats'.winsB + schedule.length =
        stats.winsA + stats.winsB + schedule'.length ∧
      stats'.winsB = stats.winsB + (bFirst c).toNat ∧
      (cfg.pathB.isSome →
        stats'.duplicatesDropped + stats'.lostA + stats'.lostB + stats.lostPackets =
          stats.duplicatesDropped + stats.lostA + stats.lostB + stats'.lostPackets + 1) ∧
      (cfg.pathB = none →
        stats'.lostB = stats.lostB ∧ stats'.winsB = stats.winsB ∧
          stats'.duplicatesDropped = stats.duplicatesDropped ∧
          stats'.lostA + stats.lostPackets = stats.lostA + stats'.lostPackets) := by
  obtain ⟨a, b⟩ := c
  refine ⟨_, _, rfl, ?_⟩
  cases hB : cfg.pathB with
  | none =>
    obtain rfl : b = none := hsingle hB
    cases a <;> simp [survivors, bFirst] <;> omega
  | some path =>
    rcases a with - | ta <;> rcases b with - | tb
    · simp [survivors, bFirst]
      omega
    · simp [survivors, bFirst]
      omega
    · simp [survivors, bFirst]
      omega
    · rcases le_or_gt ta tb with hle | hlt
      · simp [survivors, bFirst, hle, List.min?_cons]
        omega
      · simp [survivors, bFirst, hlt, not_le.mpr hlt, List.min?_cons]
        omega

theorem delivered_succ (rng : Rng ρ) (cfg : NetworkConfig) (send : ℕ → ℕ) (n : ℕ) :
    cfg.delivered rng send (n + 1) = cfg.delivered rng send n ++
      ((survivors (cfg.copies rng send n)).min?.map (·, n)).toList := by
  rw [delivered, List.range_succ, List.filterMap_append]
  rfl

theorem Sent.sendPacket (h : Sent rng cfg send n st) {sendNs : ℕ → Except Panic ℕ}
    (hs : sendNs n = .ok (send n)) :
    (Fits (cfg.copies rng send n) →
        ∃ c st', cfg.sendPacket rng sendNs st n = .ok (c, st') ∧ Sent rng cfg send (n + 1) st') ∧
      (¬ Fits (cfg.copies rng send n) → cfg.sendPacket rng sendNs st n = .error .overflow) := by
  rw [sendPacket_eq hs, h.draws]
  constructor
  · intro hfit
    obtain ⟨schedule, stats, hmerge, hsched, hlost, hwins, hwinsB, hdual, hsingle⟩ :=
      cfg.merge_spec n st.schedule st.stats (cfg.copies rng send n) (by
        intro hnone
        cases hb : (cfg.copies rng send n).2 with
        | none => rfl
        | some t =>
          obtain ⟨path, hpath, -⟩ := copies_within.2 hb
          cases hnone.symm.trans hpath)
    rw [← copies, if_pos hfit, hmerge]
    refine ⟨_, _, rfl, rfl, ?_, ?_, ?_, ?_, ?_, ?_⟩
    · rw [delivered_succ, ← h.schedule]
      exact hsched
    · have := h.lost
      dsimp only
      omega
    · have := h.wins
      dsimp only
      omega
    · dsimp only
      rw [hwinsB, h.winsB, List.range_succ, List.countP_append]
      cases hfirst : bFirst (cfg.copies rng send n) <;> simp [hfirst]
    · intro hpath
      have := hdual hpath
      have := h.dual hpath
      dsimp only
      omega
    · intro hpath
      have := hsingle hpath
      have := h.single hpath
      dsimp only
      omega
  · intro hfit
    rw [← copies, if_neg hfit]

theorem Sent.run {total : ℕ} {sendNs : ℕ → Except Panic ℕ} (n : ℕ)
    (hs : ∀ i < n, sendNs i = .ok (send i)) :
    (∀ cs st, run (cfg.sendPacket rng sendNs) ⟨cfg.startDraws rng, [], { sent := total }⟩
        (List.range n) = .ok (cs, st) → Sent rng cfg send n st) ∧
      ((∃ r, run (cfg.sendPacket rng sendNs) ⟨cfg.startDraws rng, [], { sent := total }⟩
        (List.range n) = .ok r) ↔ ∀ i < n, Fits (cfg.copies rng send i)) := by
  induction n with
  | zero =>
    refine ⟨?_, ?_⟩
    · intro cs st h
      cases h
      exact sent_zero rng cfg send total
    · exact ⟨fun _ i hi => absurd hi (Nat.not_lt_zero i), fun _ => ⟨_, rfl⟩⟩
  | succ n ih =>
    -- the rounds before packet `n` do not depend on whether its own copies fit
    obtain ⟨hsent, hruns⟩ := ih fun i hi => hs i (by omega)
    rw [List.range_succ]
    refine ⟨?_, ?_, ?_⟩
    · intro cs st h
      obtain ⟨cs', st', c, hrun, hstep, -⟩ := run_concat_ok_iff.mp h
      have hn := (hsent cs' st' hrun).sendPacket (hs n (by omega))
      by_cases hfit : Fits (cfg.copies rng send n)
      · obtain ⟨c', st'', hstep', hst⟩ := hn.1 hfit
        cases hstep.symm.trans hstep'
        exact hst
      · cases hstep.symm.trans (hn.2 hfit)
    · rintro ⟨r, h⟩ i hi
      obtain ⟨cs', st', c, hrun, hstep, -⟩ := run_concat_ok_iff.mp h
      rcases Nat.lt_succ_iff_lt_or_eq.mp hi with hi | rfl
      · exact hruns.mp ⟨_, hrun⟩ i hi
      · by_contra hfit
        cases hstep.symm.trans
          (((hsent cs' st' hrun).sendPacket (hs i (by omega))).2 hfit)
    · intro hfit
      obtain ⟨⟨cs, st⟩, hrun⟩ := hruns.mpr fun i hi => hfit i (by omega)
      obtain ⟨c, st', hstep, -⟩ :=
        ((hsent cs st hrun).sendPacket (hs n (by omega))).1 (hfit n (by omega))
      exact ⟨_, run_concat_ok_iff.mpr ⟨cs, st, c, hrun, hstep, rfl⟩⟩

theorem mem_delivered {t i : ℕ} :
    (t, i) ∈ cfg.delivered rng send n ↔
      i < n ∧ (survivors (cfg.copies rng send i)).min? = some t := by
  simp only [delivered, List.mem_filterMap, List.mem_range, Option.map_eq_some_iff, Prod.mk.injEq]
  constructor
  · rintro ⟨j, hj, t', ht, rfl, rfl⟩
    exact ⟨hj, ht⟩
  · rintro ⟨hi, ht⟩
    exact ⟨i, hi, t, ht, rfl, rfl⟩

theorem pairwise_delivered (rng : Rng ρ) (cfg : NetworkConfig) (send : ℕ → ℕ) (n : ℕ) :
    (cfg.delivered rng send n).Pairwise fun x y => x.2 < y.2 := by
  refine List.Pairwise.filterMap _ ?_ List.pairwise_lt_range
  intro i j hij x hx y hy
  obtain ⟨_, -, rfl⟩ := Option.map_eq_some_iff.mp hx
  obtain ⟨_, -, rfl⟩ := Option.map_eq_some_iff.mp hy
  exact hij

end NetworkConfig

open NetworkConfig

variable {rng : Rng ρ} {cfg : NetworkConfig} {send : ℕ → ℕ} {n : ℕ}

theorem disturb_ok {sendNs : ℕ → Except Panic ℕ} (hs : ∀ i < n, sendNs i = .ok (send i))
    {schedule : List (ℕ × ℕ)} {stats : NetworkStats}
    (h : disturb rng n sendNs cfg = .ok (schedule, stats)) :
    schedule = sortByKey Prod.fst (cfg.delivered rng send n) ∧
      measureDisplacement schedule = .ok stats.displacement ∧ stats.delivered = schedule.length ∧
      ∃ st, Sent rng cfg send n st ∧
        stats = { st.stats with
          delivered := stats.delivered, displacement := stats.displacement } := by
  unfold disturb at h
  cases hrun : run (cfg.sendPacket rng sendNs) ⟨cfg.startDraws rng, [], { sent := n }⟩
      (List.range n) with
  | error p =>
    rw [hrun] at h
    cases h
  | ok r =>
    obtain ⟨cs, st⟩ := r
    have hsent := (Sent.run n hs).1 cs st hrun
    rw [hrun] at h
    dsimp only at h
    cases hd : measureDisplacement (sortByKey Prod.fst st.schedule) with
    | error p =>
      rw [hd] at h
      cases h
    | ok displacement =>
      rw [hd] at h
      cases h
      exact ⟨by rw [hsent.schedule], hd, rfl, st, hsent, rfl⟩

theorem disturb_schedule {sendNs : ℕ → Except Panic ℕ} (hs : ∀ i < n, sendNs i = .ok (send i))
    {schedule : List (ℕ × ℕ)} {stats : NetworkStats}
    (h : disturb rng n sendNs cfg = .ok (schedule, stats)) :
    schedule.Pairwise (fun x y => x.1 < y.1 ∨ x.1 = y.1 ∧ x.2 < y.2) ∧
      (schedule.map Prod.snd).Nodup ∧
      ∀ t i, (t, i) ∈ schedule ↔ i < n ∧ (survivors (cfg.copies rng send i)).min? = some t := by
  obtain ⟨rfl, -⟩ := disturb_ok hs h
  have hperm := perm_sortByKey Prod.fst (cfg.delivered rng send n)
  have hnodup : ((cfg.delivered rng send n).map Prod.snd).Nodup :=
    List.pairwise_map.mpr ((pairwise_delivered rng cfg send n).imp fun h => h.ne)
  refine ⟨pairwise_sortByKey (pairwise_delivered rng cfg send n),
    (hperm.map _).nodup_iff.mpr hnodup, ?_⟩
  intro t i
  rw [hperm.mem_iff, mem_delivered]

theorem exists_sendNs_of_run {sendNs : ℕ → Except Panic ℕ} {st : NetworkRun ρ}
    {r : List Copies × NetworkRun ρ}
    (h : run (cfg.sendPacket rng sendNs) st (List.range n) = .ok r) :
    ∀ i < n, ∃ t, sendNs i = .ok t := by
  induction n generalizing r with
  | zero => exact nofun
  | succ n ih =>
    rw [List.range_succ] at h
    obtain ⟨cs, st', c, hrun, hstep, -⟩ := run_concat_ok_iff.mp h
    intro i hi
    rcases Nat.lt_succ_iff_lt_or_eq.mp hi with hi | rfl
    · exact ih hrun i hi
    · cases hs : sendNs i with
      | error p =>
        rw [sendPacket, hs] at hstep
        cases hstep
      | ok t => exact ⟨t, rfl⟩

theorem exists_sendNs_of_disturb {sendNs : ℕ → Except Panic ℕ} {r : List (ℕ × ℕ) × NetworkStats}
    (h : disturb rng n sendNs cfg = .ok r) : ∀ i < n, ∃ t, sendNs i = .ok t := by
  unfold disturb at h
  cases hrun : run (cfg.sendPacket rng sendNs) ⟨cfg.startDraws rng, [], { sent := n }⟩
      (List.range n) with
  | error p =>
    rw [hrun] at h
    cases h
  | ok r => exact exists_sendNs_of_run hrun

theorem exists_disturb_iff {sendNs : ℕ → Except Panic ℕ} (hs : ∀ i < n, sendNs i = .ok (send i)) :
    (∃ r, disturb rng n sendNs cfg = .ok r) ↔ ∀ i < n, Fits (cfg.copies rng send i) := by
  rw [← (Sent.run n hs).2]
  unfold disturb
  constructor
  · rintro ⟨r, h⟩
    cases hrun : run (cfg.sendPacket rng sendNs) ⟨cfg.startDraws rng, [], { sent := n }⟩
        (List.range n) with
    | error p =>
      rw [hrun] at h
      cases h
    | ok r => exact ⟨r, rfl⟩
  · rintro ⟨⟨cs, st⟩, hrun⟩
    obtain ⟨displacement, hd, -⟩ := measureDisplacement_ok (sortByKey Prod.fst st.schedule)
    rw [hrun]
    dsimp only
    rw [hd]
    exact ⟨_, rfl⟩

/-- The network delivers every packet that a path lets through, once and with its first copy, in
the order of arrival, and its counters add up. -/
theorem disturb_conserves (rng : Rng ρ) (n : ℕ) (cfg : NetworkConfig) (send : ℕ → ℕ)
    (sendNs : ℕ → Except Panic ℕ) (hs : ∀ i < n, sendNs i = .ok (send i)) :
    ((∃ r, disturb rng n sendNs cfg = .ok r) ↔
        ∀ i < n, ∀ t ∈ survivors (cfg.copies rng send i), t ≤ u64Max) ∧
      (∀ i t, (cfg.copies rng send i).1 = some t →
        ∃ j ≤ cfg.pathA.jitterNs, t = send i + cfg.pathA.baseDelayNs + j) ∧
      (∀ i t, (cfg.copies rng send i).2 = some t → ∃ path, cfg.pathB = some path ∧
        ∃ j ≤ path.jitterNs, t = send i + path.baseDelayNs + j) ∧
      ∀ schedule stats, disturb rng n sendNs cfg = .ok (schedule, stats) →
        schedule.Pairwise (fun x y => x.1 < y.1 ∨ x.1 = y.1 ∧ x.2 < y.2) ∧
        (schedule.map Prod.snd).Nodup ∧
        (∀ t i, (t, i) ∈ schedule ↔
          i < n ∧ (survivors (cfg.copies rng send i)).min? = some t) ∧
        stats.delivered = schedule.length ∧
        stats.delivered + stats.lostPackets = n ∧
        stats.winsA + stats.winsB = stats.delivered ∧
        stats.winsB = (List.range n).countP (fun i => bFirst (cfg.copies rng send i)) ∧
        (cfg.pathB.isSome →
          (stats.duplicatesDropped : ℤ) = n - stats.lostA - stats.lostB + stats.lostPackets) ∧
        (cfg.pathB = none →
          stats.lostB = 0 ∧ stats.winsB = 0 ∧ stats.duplicatesDropped = 0 ∧
            stats.lostA = stats.lostPackets) := by
  refine ⟨exists_disturb_iff hs, fun i t => copies_within.1, fun i t => copies_within.2, ?_⟩
  intro schedule stats h
  obtain ⟨hsched, -, hlen, st, hsent, hstats⟩ := disturb_ok hs h
  obtain ⟨hsorted, hnodup, hmem⟩ := disturb_schedule hs h
  have hcount : schedule.length = st.schedule.length := by
    rw [hsched, (perm_sortByKey _ _).length_eq, hsent.schedule]
  rw [hlen, hcount, hstats]
  refine ⟨hsorted, hnodup, hmem, rfl, hsent.lost, hsent.wins, hsent.winsB, ?_, hsent.single⟩
  intro hpath
  have := hsent.dual hpath
  dsimp only
  omega

/-- A generator that counts: it draws the fractions 0, 1/3 and 2/3 in turn. -/
def Rng.counter : Rng ℕ where
  seedFromU64 := id
  random g := ((g % 3 : ℕ) / 3, g + 1)
  randomRange n g := (g % (n + 1), g + 1)
  randomRange_le n g := Nat.le_of_lt_succ (Nat.mod_lt g n.succ_pos)

theorem disturb_conserves_lossy :
    ∃ schedule stats,
      disturb Rng.counter 5 (fun i => .ok (2 * i)) ⟨⟨100, 8, .independent (1 / 2)⟩,
        some ⟨101, 5, .gilbertElliott (1 / 2) (1 / 2)⟩, 3⟩ = .ok (schedule, stats) ∧
      schedule = [(104, 2), (106, 0), (114, 4)] ∧ stats.lostA = 3 ∧ stats.lostB = 2 ∧
      stats.delivered + stats.lostPackets = 5 ∧ stats.winsA + stats.winsB = stats.delivered ∧
      (stats.duplicatesDropped : ℤ) = 5 - stats.lostA - stats.lostB + stats.lostPackets := by
  obtain ⟨schedule, stats, hd, hq⟩ := exists_of_returns (q := fun schedule stats =>
      decide (schedule = [(104, 2), (106, 0), (114, 4)]) && stats.lostA == 3 && stats.lostB == 2)
    (x := disturb Rng.counter 5 (fun i => .ok (2 * i)) ⟨⟨100, 8, .independent (1 / 2)⟩,
      some ⟨101, 5, .gilbertElliott (1 / 2) (1 / 2)⟩, 3⟩) (by decide +kernel)
  obtain ⟨-, -, -, hspec⟩ := disturb_conserves Rng.counter 5
    ⟨⟨100, 8, .independent (1 / 2)⟩, some ⟨101, 5, .gilbertElliott (1 / 2) (1 / 2)⟩, 3⟩ (2 * ·)
    (fun i => .ok (2 * i)) (fun _ _ => rfl)
  obtain ⟨-, -, -, -, htotal, hwins, -, hdual, -⟩ := hspec schedule stats hd
  simp only [Bool.and_eq_true, decide_eq_true_eq, beq_iff_eq] at hq
  exact ⟨schedule, stats, hd, hq.1.1, hq.1.2, hq.2, htotal, hwins, hdual rfl⟩

end SafeCast
