import SafeCast.Tesla.Ledger

/-! # Every verdict, from the deliveries alone

The receiver settles drawer by drawer, as keys come in. The verdicts it gives over a run are
those of a reader that has only the list of the deliveries and the newest trusted key, and
goes through the intervals in order at the end. A packet that is delivered when its key is
already trusted never gets a verdict.
-/

namespace SafeCast

open HashChain Runs

namespace TeslaReceiver

/-- A delivered packet, with the trusted index when it joined its drawer. -/
structure Delivery where
  interval : ℕ
  entry : DrawerEntry
  trusted : ℕ
  deriving DecidableEq

variable {ι : Type*}

def delivery (t : Transition (TeslaReceiver ι) (Bytes × ℕ)
    (Except TeslaDrop (List Verdict) × Bytes)) : Option Delivery :=
  match t.output.1, splitExtension t.input.1 with
  | .ok _, some (ext, packet) =>
    some ⟨ext.interval, t.before.entryOf t.input.2 ext packet, t.after.verifier.trustedIndex⟩
  | _, _ => none

/-- The packets of an interval whose key was not yet trusted when they were delivered. -/
def inTime (ds : List Delivery) (i : ℕ) : List DrawerEntry :=
  (ds.filter fun d => d.interval = i ∧ d.trusted < i).map Delivery.entry

/-- The packets of an interval that wait, when the keys up to `trusted` are known. -/
def waiting (ds : List Delivery) (trusted i : ℕ) : List DrawerEntry :=
  (ds.filter fun d => d.interval = i ∧ (trusted < i ∨ i ≤ d.trusted)).map Delivery.entry

/-- The verdicts on all deliveries: interval by interval, with the keys of the chain below the
trusted one. -/
def allVerdicts (c : Crypto) (alg : TeslaMacAlg) (ds : List Delivery) (v : ChainVerifier) :
    List Verdict :=
  (List.range' 1 v.trustedIndex).flatMap fun i =>
    (inTime ds i).map (judge c alg i (element (fStep c) v.trustedKey v.trustedIndex i))

variable {c : Crypto} {alg : TeslaMacAlg} {ds : List Delivery} {d : Delivery} {i trusted : ℕ}

theorem inTime_concat (h : i ≤ d.trusted) : inTime (ds ++ [d]) i = inTime ds i := by
  have hlate : ¬ (d.interval = i ∧ d.trusted < i) := fun hd => absurd hd.2 (not_lt.mpr h)
  simp [inTime, List.filter_append, hlate]

theorem inTime_eq_waiting (hle : ∀ d ∈ ds, d.trusted ≤ trusted) (hi : trusted < i) :
    inTime ds i = waiting ds trusted i := by
  unfold inTime waiting
  congr 1
  refine List.filter_congr ?_
  intro d hd
  have := hle d hd
  simp [hi, show d.trusted < i by omega]

theorem waiting_of_le {trusted' : ℕ} (hle : ∀ d ∈ ds, d.trusted ≤ trusted)
    (htrusted : trusted ≤ trusted') :
    waiting ds trusted' i = if trusted < i ∧ i ≤ trusted' then [] else waiting ds trusted i := by
  unfold waiting
  split_ifs with hi
  · have hnone : ds.filter (fun d => d.interval = i ∧ (trusted' < i ∨ i ≤ d.trusted)) = [] := by
      refine List.filter_eq_nil_iff.mpr ?_
      intro d hd
      have := hle d hd
      simp only [decide_eq_true_eq]
      omega
    rw [hnone, List.map_nil]
  · congr 1
    refine List.filter_congr ?_
    intro d _
    simp only [decide_eq_decide]
    omega

/-- A delivered packet waits: for its key, or for ever. -/
theorem waiting_concat :
    waiting (ds ++ [d]) d.trusted i =
      waiting ds d.trusted i ++ if d.interval = i then [d.entry] else [] := by
  unfold waiting
  rw [List.filter_append, List.map_append]
  congr 1
  by_cases hi : d.interval = i
  · simp [hi, lt_or_ge]
  · simp [hi]

theorem verdictsFor_eq {drawers : Drawers} {keys : List (ℕ × ChainKey)}
    (hnodup : (keys.map Prod.fst).Nodup) :
    verdictsFor c alg drawers keys = keys.flatMap fun k =>
      ((drawers.lookup k.1).getD []).map (judge c alg k.1 k.2) := by
  induction keys generalizing drawers with
  | nil => rfl
  | cons k keys ih =>
    obtain ⟨hk, hnodup⟩ := List.nodup_cons.mp hnodup
    rw [verdictsFor, ih hnodup, List.flatMap_cons]
    congr 1
    refine List.flatMap_congr ?_
    intro k' hk'
    have hne : k'.1 ≠ k.1 := fun heq => hk (heq ▸ List.mem_map_of_mem hk')
    rw [AList.lookup_erase_ne hne]

variable {r r' : TeslaReceiver ι} {ext : Extension} {keys : List (ℕ × ChainKey)}
  {verifier : ChainVerifier}

theorem HandsOut.keys_eq (h : r.HandsOut c ext keys verifier) :
    keys = (List.range' (r.verifier.trustedIndex + 1)
        (verifier.trustedIndex - r.verifier.trustedIndex)).map
          (fun j => (j, element (fStep c) verifier.trustedKey verifier.trustedIndex j)) ∧
      ∀ j ≤ r.verifier.trustedIndex,
        element (fStep c) r.verifier.trustedKey r.verifier.trustedIndex j =
          element (fStep c) verifier.trustedKey verifier.trustedIndex j := by
  rcases h with hnew | ⟨-, rfl, rfl⟩
  · obtain ⟨hlt, -, -, hwalk, rfl, rfl⟩ := ChainVerifier.check_new_iff.mp hnew
    refine ⟨rfl, ?_⟩
    intro j hj
    rw [← hwalk]
    exact element_element hlt.le hj
  · refine ⟨?_, fun j _ => rfl⟩
    rw [Nat.sub_self]
    rfl

/-- The receiver after some deliveries and verdicts: the verdicts are all that the trusted key
allows, and the drawers hold the rest. -/
structure Settled (c : Crypto) (alg : TeslaMacAlg) (ds : List Delivery) (vs : List Verdict)
    (r : TeslaReceiver ι) : Prop where
  alg_eq : r.alg = alg
  le : ∀ d ∈ ds, d.trusted ≤ r.verifier.trustedIndex
  verdicts : vs = allVerdicts c alg ds r.verifier
  drawers : ∀ i, (r.drawers.lookup i).getD [] = waiting ds r.verifier.trustedIndex i

variable {vs : List Verdict}

theorem Settled.allVerdicts_eq (h : Settled c alg ds vs r)
    (hkeys : r.HandsOut c ext keys verifier) :
    allVerdicts c alg ds verifier = vs ++ verdictsFor c alg r.drawers keys := by
  obtain ⟨hle, -, -⟩ := hkeys.indices
  obtain ⟨hkeys, hbelow⟩ := hkeys.keys_eq
  have hsplit : List.range' 1 verifier.trustedIndex = List.range' 1 r.verifier.trustedIndex ++
      List.range' (r.verifier.trustedIndex + 1)
        (verifier.trustedIndex - r.verifier.trustedIndex) := by
    rw [Nat.add_comm, List.range'_append_1, Nat.add_sub_cancel' hle]
  have hnodup : (keys.map Prod.fst).Nodup := by
    simp only [hkeys, List.map_map, Function.comp_def, List.map_id']
    exact List.nodup_range'
  rw [allVerdicts, hsplit, List.flatMap_append, h.verdicts, verdictsFor_eq hnodup, hkeys,
    List.flatMap_map]
  congr 1
  · refine List.flatMap_congr ?_
    intro i hi
    have hi := List.mem_range'_1.mp hi
    rw [hbelow i (by omega)]
  · refine List.flatMap_congr ?_
    intro i hi
    have hi := List.mem_range'_1.mp hi
    rw [h.drawers i, inTime_eq_waiting h.le (by omega)]

theorem allVerdicts_concat (hd : d.trusted = verifier.trustedIndex) :
    allVerdicts c alg (ds ++ [d]) verifier = allVerdicts c alg ds verifier := by
  refine List.flatMap_congr ?_
  intro i hi
  have hi := List.mem_range'_1.mp hi
  rw [inTime_concat (by omega)]

theorem Settled.deliver {entry : DrawerEntry} (h : Settled c alg ds vs r)
    (hkeys : r.HandsOut c ext keys verifier) (halg : r'.alg = alg) (hv : r'.verifier = verifier)
    (hdrawers : r'.drawers = (eraseAll r.drawers keys).insert ext.interval
      (((eraseAll r.drawers keys).lookup ext.interval).getD [] ++ [entry])) :
    Settled c alg (ds ++ [⟨ext.interval, entry, verifier.trustedIndex⟩])
      (vs ++ verdictsFor c alg r.drawers keys) r' := by
  obtain ⟨hle, -, hmem⟩ := hkeys.indices
  refine ⟨halg, ?_, ?_, ?_⟩
  · intro d hd
    rw [hv]
    rcases List.mem_append.mp hd with hd | hd
    · exact (h.le d hd).trans hle
    · rw [List.mem_singleton.mp hd]
  · rw [hv, allVerdicts_concat rfl, h.allVerdicts_eq hkeys]
  · intro i
    have herased : ((eraseAll r.drawers keys).lookup i).getD [] =
        waiting ds verifier.trustedIndex i := by
      rw [lookup_eraseAll, waiting_of_le h.le hle]
      by_cases hi : i ∈ keys.map Prod.fst
      · rw [if_pos hi, if_pos ((hmem i).mp hi), Option.getD_none]
      · rw [if_neg hi, if_neg (mt (hmem i).mpr hi), h.drawers i]
    rw [hv, hdrawers, waiting_concat]
    dsimp only
    rw [← herased]
    by_cases hi : ext.interval = i
    · subst hi
      rw [AList.lookup_insert, if_pos rfl, Option.getD_some]
    · rw [AList.lookup_insert_ne (Ne.symm hi), if_neg hi, List.append_nil]

variable {ops : InnerOps ι}

theorem Settled.step {i : Bytes × ℕ} {out : Except TeslaDrop (List Verdict) × Bytes}
    (h : Settled c alg ds vs r) (hstep : r.arrival ops c i = .ok (out, r')) :
    Settled c alg (ds ++ (delivery ⟨r, i, out, r'⟩).toList) (vs ++ verdictsOf out.1) r' := by
  have hdrop : ∀ {e : TeslaDrop} {r₁ : TeslaReceiver ι}, out.1 = .error e →
      r₁.alg = r.alg → r₁.verifier = r.verifier → r₁.drawers = r.drawers →
      Settled c alg (ds ++ (delivery ⟨r, i, out, r₁⟩).toList) (vs ++ verdictsOf out.1) r₁ := by
    intro e r₁ hout halg hv hd
    rw [delivery, hout]
    simp only [verdictsOf, Option.toList_none, List.append_nil]
    exact ⟨halg.trans h.alg_eq, hv ▸ h.le, hv ▸ h.verdicts, by rw [hv, hd]; exact h.drawers⟩
  rcases processArrival_cases hstep with ⟨e, -, -, hout, rfl⟩ | ⟨ext, packet, hadm,
    ⟨e, b, inner, -, rfl, rfl⟩ | ⟨g, plain, inner, -, -, rfl, rfl⟩ |
    ⟨g, plain, inner, keys, verifier, verdicts, r₁, -, hkeys, hsettle, rfl, rfl⟩⟩
  · exact hdrop hout rfl rfl rfl
  · exact hdrop rfl rfl rfl rfl
  · exact hdrop rfl rfl rfl rfl
  · obtain ⟨rfl, pending, stats, rfl⟩ := settle_ok hsettle
    have halg : (r.authenticated inner packet).alg = alg := h.alg_eq
    simp only [delivery, hadm.split, Option.toList_some, verdictsOf, halg]
    exact h.deliver hkeys rfl rfl rfl

/-- Over any run of the receiver, the verdicts it gave are a function of what it delivered and
of the key it trusts in the end. They come interval by interval and within an interval in the
order of delivery, one for each packet that was delivered before its key was trusted. All other
delivered packets are still in their drawers. -/
theorem verdicts_of_deliveries (ops : InnerOps ι) (c : Crypto) (commitment : TeslaCommitment)
    (signature senderPublicKey : Bytes) (dTNs : UInt64) (gMax : UInt32) (inner : ι)
    {r₀ r : TeslaReceiver ι} {inputs : List (Bytes × ℕ)}
    {outs : List (Except TeslaDrop (List Verdict) × Bytes)}
    (h₀ : accept c commitment signature senderPublicKey dTNs gMax inner = .ok (some r₀))
    (hrun : run (arrival ops c) r₀ inputs = .ok (outs, r)) :
    outs.flatMap (fun out => verdictsOf out.1) = allVerdicts c commitment.macAlg
        ((calls (arrival ops c) r₀ inputs).filterMap delivery) r.verifier ∧
      ∀ i, (r.drawers.lookup i).getD [] =
        waiting ((calls (arrival ops c) r₀ inputs).filterMap delivery) r.verifier.trustedIndex
          i := by
  have hsettled := run_ledger (fun ts r => Settled c commitment.macAlg (ts.filterMap delivery)
    (ts.flatMap fun t => verdictsOf t.output.1) r) ?_ ?_ hrun
  · refine ⟨?_, hsettled.drawers⟩
    rw [← map_output_calls hrun, List.flatMap_map]
    exact hsettled.verdicts
  · obtain ⟨params, -, rfl⟩ := accept_ok h₀
    exact ⟨rfl, by simp, rfl, fun i => rfl⟩
  · intro ts r i out r' h hstep
    rw [List.filterMap_append, List.flatMap_append, List.flatMap_singleton]
    have hone : [(⟨r, i, out, r'⟩ : Transition (TeslaReceiver ι) (Bytes × ℕ)
        (Except TeslaDrop (List Verdict) × Bytes))].filterMap delivery =
          (delivery ⟨r, i, out, r'⟩).toList := by
      cases hd : delivery ⟨r, i, out, r'⟩ <;> simp [hd]
    rw [hone]
    exact h.step hstep

theorem verdicts_of_deliveries_two_packets :
    ∃ r₀ outs r, accept Crypto.toy toyCommitment [] [] 0 8 () = .ok (some r₀) ∧
      run (arrival InnerOps.acceptAll Crypto.toy) r₀ toyArrivals = .ok (outs, r) ∧
      r.verifier.trustedIndex = 1 ∧
      ((outs.flatMap fun out => verdictsOf out.1).map fun v => (v.interval, v.verified)) =
        [(1, true)] ∧
      outs.flatMap (fun out => verdictsOf out.1) = allVerdicts Crypto.toy .gmacAes128
        ((calls (arrival InnerOps.acceptAll Crypto.toy) r₀ toyArrivals).filterMap delivery)
        r.verifier := by
  obtain ⟨r₀, h₀⟩ : ∃ r₀, accept Crypto.toy toyCommitment [] [] 0 8 () = .ok (some r₀) :=
    ⟨_, rfl⟩
  obtain ⟨outs, r, hrun, hout⟩ := exists_of_returns
    (x := run (arrival InnerOps.acceptAll Crypto.toy) r₀ toyArrivals)
    (q := fun outs r => r.verifier.trustedIndex = 1 ∧
      ((outs.flatMap fun out => verdictsOf out.1).map fun v => (v.interval, v.verified)) =
        [(1, true)])
    (by cases h₀; decide +kernel)
  obtain ⟨htrusted, hverdicts⟩ := of_decide_eq_true hout
  exact ⟨r₀, outs, r, h₀, hrun, htrusted, hverdicts,
    (verdicts_of_deliveries InnerOps.acceptAll Crypto.toy toyCommitment [] [] 0 8 () h₀ hrun).1⟩

end TeslaReceiver

end SafeCast
