import SafeCast.Library.Binary64
import SafeCast.Library.RunningMax
import SafeCast.Library.SortByKey
import SafeCast.Primitives

/-! # The displacement of the delivered packets

`measureDisplacement` walks over the arrivals once and keeps the highest packet number so far.
A packet behind it is late; a packet ahead of it skips the numbers between. The walk computes
the lateness and the skips of `RunningMax`.
-/

namespace SafeCast

open RunningMax SortByKey

structure DisplacementStats where
  reordered : ℕ := 0
  maxLateness : ℕ := 0
  p50 : ℕ := 0
  p99 : ℕ := 0
  p999 : ℕ := 0
  gaps : ℕ := 0
  maxGap : ℕ := 0
  deriving DecidableEq, Repr

structure DisplacementWalk where
  lateness : List ℕ := []
  maxSeen : Option ℕ := none
  gaps : ℕ := 0
  maxGap : ℕ := 0

namespace DisplacementWalk

def visit (w : DisplacementWalk) (idx : ℕ) : DisplacementWalk :=
  let d :=
    match w.maxSeen with
    | some m => if idx < m then m - idx else 0
    | none => 0
  let skipped :=
    match w.maxSeen with
    | none => idx
    | some m => if idx > m then idx - m - 1 else 0
  let newest :=
    match w.maxSeen with
    | none => some idx
    | some m => if idx > m then some idx else some m
  { lateness := w.lateness ++ [d]
    maxSeen := newest
    gaps := if skipped > 0 then w.gaps + 1 else w.gaps
    maxGap := if skipped > 0 then max w.maxGap skipped else w.maxGap }

end DisplacementWalk

/-- The nearest-rank percentile for the double `c / 2 ^ s`, of sorted values. -/
def percentile (sorted : List ℕ) (c s : ℕ) : Option ℕ :=
  sorted[Binary64.mulRound (sorted.length - 1) c s]?

def measureDisplacement (schedule : List (ℕ × ℕ)) : Except Panic DisplacementStats :=
  let w : DisplacementWalk := schedule.foldl (fun w x => w.visit x.2) {}
  if w.lateness.isEmpty then .ok {}
  else
    let reordered := w.lateness.countP (0 < ·)
    let sorted := sortByKey id w.lateness
    -- the doubles nearest to 0.50, 0.99 and 0.999
    match sorted.getLast?, percentile sorted 1 1, percentile sorted 4458563631096791 52,
      percentile sorted 8998192055486251 53 with
    | some maxLateness, some p50, some p99, some p999 =>
      .ok { reordered := reordered, maxLateness := maxLateness, p50 := p50, p99 := p99,
            p999 := p999, gaps := w.gaps, maxGap := w.maxGap }
    | _, _, _, _ => .error .outOfRange

/-! ## The walk computes the definitions -/

theorem max?_getD_concat (l : List ℕ) (x : ℕ) :
    (l ++ [x]).max?.getD 0 = max (l.max?.getD 0) x := by
  rw [max?_concat]
  cases l.max? <;> simp

theorem foldl_visit (l : List ℕ) :
    l.foldl DisplacementWalk.visit {} =
      ⟨latenesses l, l.max?, (skips l).countP (0 < ·), (skips l).max?.getD 0⟩ := by
  induction l using List.reverseRecOn with
  | nil => rfl
  | append_singleton l x ih =>
    rw [List.foldl_append, ih, latenesses_concat, skips_concat, max?_concat, List.countP_append,
      max?_getD_concat]
    simp only [List.foldl_cons, List.foldl_nil, DisplacementWalk.visit]
    cases hm : l.max? with
    | none =>
      have hl := List.max?_eq_none_iff.mp hm
      subst hl
      rcases Nat.eq_zero_or_pos x with rfl | hx
      · rfl
      · simp [skips, latenesses, hx]
    | some m =>
      simp only [Option.elim_some, DisplacementWalk.mk.injEq, List.append_cancel_left_eq,
        List.cons.injEq, and_true]
      refine ⟨?_, ?_, ?_, ?_⟩
      · split_ifs <;> omega
      · split_ifs with hx
        · rw [max_eq_right hx.le]
        · rw [max_eq_left (not_lt.mp hx)]
      · rw [List.countP_singleton]
        simp only [decide_eq_true_eq]
        split_ifs <;> omega
      · split_ifs <;> omega

/-! ## The statistics -/

theorem exists_percentile {l : List ℕ} (hl : l ≠ []) {c s : ℕ} (hs : 1 ≤ s)
    (hc : (2 ^ 53 + 1) ^ 2 * c ≤ 2 ^ 106 * 2 ^ s) : ∃ x, percentile l c s = some x := by
  have hpos : 0 < l.length := List.length_pos_iff.mpr hl
  have hrank := Binary64.mulRound_le (n := l.length - 1) hs hc
  exact ⟨_, List.getElem?_eq_getElem (by omega)⟩

theorem getLast?_sortByKey {l : List ℕ} (hl : l ≠ []) :
    (sortByKey id l).getLast? = some (l.max?.getD 0) := by
  have hne : sortByKey id l ≠ [] := by
    intro h
    have hperm := perm_sortByKey id l
    rw [h] at hperm
    exact hl hperm.nil_eq.symm
  obtain ⟨m, hm⟩ : ∃ m, (sortByKey id l).getLast? = some m :=
    ⟨_, List.getLast?_eq_some_getLast hne⟩
  have hmax : l.max? = some m := List.max?_eq_some_iff.mpr (key_le_of_getLast? hm)
  rw [hm, hmax, Option.getD_some]

theorem measureDisplacement_ok (schedule : List (ℕ × ℕ)) :
    ∃ stats, measureDisplacement schedule = .ok stats ∧
      stats.reordered = (latenesses (schedule.map Prod.snd)).countP (0 < ·) ∧
      stats.maxLateness = (latenesses (schedule.map Prod.snd)).max?.getD 0 ∧
      stats.gaps = (skips (schedule.map Prod.snd)).countP (0 < ·) ∧
      stats.maxGap = (skips (schedule.map Prod.snd)).max?.getD 0 := by
  have hwalk := foldl_visit (schedule.map Prod.snd)
  rw [List.foldl_map] at hwalk
  unfold measureDisplacement
  rw [hwalk]
  dsimp only
  by_cases hempty : latenesses (schedule.map Prod.snd) = []
  · have hnil : schedule = [] := by simpa [latenesses] using hempty
    subst hnil
    exact ⟨{}, rfl, rfl, rfl, rfl, rfl⟩
  · have hsorted : sortByKey id (latenesses (schedule.map Prod.snd)) ≠ [] := by
      intro h
      have hlast := getLast?_sortByKey hempty
      rw [h] at hlast
      cases hlast
    obtain ⟨p50, h50⟩ := exists_percentile hsorted (c := 1) (s := 1) (by decide) (by decide)
    obtain ⟨p99, h99⟩ := exists_percentile hsorted (c := 4458563631096791) (s := 52) (by decide)
      (by decide)
    obtain ⟨p999, h999⟩ := exists_percentile hsorted (c := 8998192055486251) (s := 53) (by decide)
      (by decide)
    rw [getLast?_sortByKey hempty, h50, h99, h999, if_neg (by simpa using hempty)]
    exact ⟨_, rfl, rfl, rfl, rfl, rfl⟩

/-- The statistics of a schedule without repeated packets, from the positions: a packet is
reordered if a larger number arrived before it, it is late by its distance to the largest one,
and it makes a gap if it skips numbers. Every number skipped is delivered late or not at all. -/
theorem measureDisplacement_eq (schedule : List (ℕ × ℕ)) (l : List ℕ)
    (hl : schedule.map Prod.snd = l) (hnodup : l.Nodup) :
    ∃ stats, measureDisplacement schedule = .ok stats ∧
      stats.reordered = (List.range l.length).countP (fun k => ∃ y ∈ l.take k, l.getD k 0 < y) ∧
      stats.maxLateness = ((List.range l.length).map (lateness l)).max?.getD 0 ∧
      stats.gaps =
        (List.range l.length).countP (fun k => (newest l k).elim 0 (· + 1) < l.getD k 0) ∧
      stats.maxGap = ((List.range l.length).map (skipped l)).max?.getD 0 ∧
      ((List.range l.length).map (skipped l)).foldl (· + ·) 0 =
        stats.reordered + (missing l).length := by
  obtain ⟨stats, hstats, hreordered, hlate, hgaps, hgap⟩ := measureDisplacement_ok schedule
  rw [hl] at hreordered hlate hgaps hgap
  have hcount : stats.reordered =
      (List.range l.length).countP (fun k => ∃ y ∈ l.take k, l.getD k 0 < y) := by
    rw [hreordered, latenesses, List.countP_map]
    apply List.countP_congr
    intro k _
    simp only [Function.comp_apply, decide_eq_true_eq]
    exact lateness_pos_iff
  refine ⟨stats, hstats, hcount, hlate, ?_, hgap, ?_⟩
  · rw [hgaps, skips, List.countP_map]
    apply List.countP_congr
    intro k _
    simp only [Function.comp_apply, decide_eq_true_eq]
    exact Nat.sub_pos_iff_lt
  · rw [hreordered]
    exact total_skips hnodup

/-- Packets 2, 0, 5, 3 arrive: 0 and 3 are late, 2 and 5 skip two numbers each, and 1 and 4 are
lost. -/
theorem measureDisplacement_four :
    ∃ stats, measureDisplacement [(10, 2), (11, 0), (12, 5), (13, 3)] = .ok stats ∧
      stats.reordered = 2 ∧ stats.maxLateness = 2 ∧ stats.gaps = 2 ∧ stats.maxGap = 2 := by
  obtain ⟨stats, hstats, hreordered, hlate, hgaps, hgap, -⟩ :=
    measureDisplacement_eq [(10, 2), (11, 0), (12, 5), (13, 3)] [2, 0, 5, 3] rfl (by decide)
  exact ⟨stats, hstats, hreordered.trans (by decide), hlate.trans (by decide),
    hgaps.trans (by decide), hgap.trans (by decide)⟩

end SafeCast
