import SafeCast.Benchmark.Run
import SafeCast.Simulation.Pacing

/-! # The checks of the benchmark

The stream is honest: no packet is altered, and each arrives once. `Accounted` holds in every
round of the measurement loop as long as the receiver can take the packets that arrive
(`StreamModel.Tolerates`), and it implies every check. An outage of half a cycle of sequence
numbers is enough for a packet that the receiver cannot take.
-/

namespace SafeCast

open Runs RunningMax

/-- The sender can produce packet `i`: it fits the length of a C `int` and the key usage limit. -/
def StreamModel.Producible (m : StreamModel) (i : ℕ) : Prop :=
  rtpHeaderLen + m.payloadSize + gcmTagLen < 2 ^ 31 ∧ i + 2 < 2 ^ 48

instance (m : StreamModel) (i : ℕ) : Decidable (m.Producible i) :=
  inferInstanceAs (Decidable (_ ∧ _))

theorem StreamModel.Producible.mono {m : StreamModel} {i j : ℕ} (h : m.Producible i)
    (hj : j ≤ i) : m.Producible j :=
  ⟨h.1, by have := h.2; omega⟩

namespace Benchmark

variable {c : Crypto} {m : StreamModel} {granularity : Granularity} {start : StreamRatchet}
  {arrived : List ℕ} {i : ℕ} {sender : SimulatedSender} {stash : Stash}

/-- Every packet below the sender's cursor has arrived or is in the stash. -/
structure Stocked (c : Crypto) (m : StreamModel) (granularity : Granularity)
    (start : StreamRatchet) (arrived : List ℕ) (sender : SimulatedSender) (stash : Stash) :
    Prop where
  produced : SimulatedSender.Produced c m granularity start sender.nextI sender
  waiting : ∀ j, stash.lookup j = if j < sender.nextI ∧ j ∉ arrived then
    some (m.protectedPacket c granularity start j) else none
  arrived_lt : ∀ j ∈ arrived, j < sender.nextI
  producible : ∀ j < sender.nextI, m.Producible j

theorem Stocked.nextI_lt (h : Stocked c m granularity start arrived sender stash) :
    sender.nextI < 2 ^ 48 - 1 := by
  rcases Nat.eq_zero_or_pos sender.nextI with hzero | hpos
  · omega
  · have := (h.producible (sender.nextI - 1) (by omega)).2
    omega

theorem produceUntil_spec (hg : granularity.Valid) (hstart : start.generation = 0) {fuel : ℕ}
    (h : Stocked c m granularity start arrived sender stash) (hi : sender.nextI ≤ i)
    (hfuel : i + 1 = sender.nextI + fuel) :
    if m.Producible i then
      ∃ sender' stash', produceUntil c i fuel sender stash =
          .ok (m.protectedPacket c granularity start i, sender', stash') ∧
        Stocked c m granularity start (arrived ++ [i]) sender' stash'
    else ∃ p, produceUntil c i fuel sender stash = .error (.panic p) := by
  induction fuel generalizing sender stash with
  | zero => omega
  | succ fuel ih =>
    have hnext := h.produced.nextProtected hg hstart h.nextI_lt
    unfold produceUntil
    by_cases hprod : m.Producible sender.nextI
    · rw [if_pos (And.intro hprod.1 hprod.2)] at hnext
      obtain ⟨sender', hsender, hproduced⟩ := hnext
      have hcursor : sender'.nextI = sender.nextI + 1 := hproduced.nextI
      rw [← hcursor] at hproduced
      have hproducible : ∀ j < sender'.nextI, m.Producible j :=
        fun j hj => hprod.mono (by omega)
      rw [hsender]
      dsimp only
      by_cases heq : sender.nextI = i
      · -- packet `i` is handed out and not stashed
        rw [if_pos (heq ▸ hprod), if_pos heq]
        refine ⟨sender', stash, by rw [heq], hproduced, ?_, ?_, hproducible⟩
        · intro j
          have hiff : (j < sender'.nextI ∧ j ∉ arrived ++ [i]) ↔
              j < sender.nextI ∧ j ∉ arrived := by
            rw [hcursor, List.mem_append, List.mem_singleton, not_or]
            constructor
            · rintro ⟨hlt, hnew, hne⟩
              exact ⟨by omega, hnew⟩
            · rintro ⟨hlt, hnew⟩
              exact ⟨by omega, hnew, by omega⟩
          simp only [h.waiting j, hiff]
        · intro j hj
          rcases List.mem_append.mp hj with hj | hj
          · have := h.arrived_lt j hj
            omega
          · rw [List.mem_singleton.mp hj]
            omega
      · -- a packet on the way goes into the stash
        rw [if_neg heq]
        refine ih ⟨hproduced, ?_, ?_, hproducible⟩ (by omega) (by omega)
        · intro j
          by_cases hj : j = sender.nextI
          · subst hj
            have hnew : sender.nextI ∉ arrived := fun hmem =>
              absurd (h.arrived_lt _ hmem) (lt_irrefl _)
            rw [AList.lookup_insert, if_pos ⟨by omega, hnew⟩]
          · have hiff : j < sender'.nextI ↔ j < sender.nextI := by omega
            rw [AList.lookup_insert_ne hj, h.waiting j]
            simp only [hiff]
        · intro j hj
          have := h.arrived_lt j hj
          omega
    · rw [if_neg fun hi' => hprod (StreamModel.Producible.mono hi' hi)]
      rw [if_neg (show ¬ (_ ∧ _) from hprod)] at hnext
      obtain ⟨p, hp⟩ := hnext
      rw [hp]
      exact ⟨p, rfl⟩

variable {w : ℕ} {st : RunState w}

theorem Stocked.fetch (h : Stocked c m granularity start arrived st.sender st.stash)
    (hg : granularity.Valid) (hstart : start.generation = 0) (hi : i ∉ arrived) :
    if m.Producible i then
      ∃ sender stash, st.fetch c i =
          .ok (m.protectedPacket c granularity start i, sender, stash) ∧
        Stocked c m granularity start (arrived ++ [i]) sender stash
    else ∃ p, st.fetch c i = .error (.panic p) := by
  unfold RunState.fetch
  by_cases hlt : i < st.sender.nextI
  · rw [if_pos (h.producible i hlt), h.waiting i, if_pos ⟨hlt, hi⟩]
    refine ⟨st.sender, st.stash.erase i, rfl, h.produced, ?_, ?_, h.producible⟩
    · intro j
      by_cases hj : j = i
      · subst hj
        rw [AList.lookup_erase, if_neg (by simp)]
      · have hiff : (j < st.sender.nextI ∧ j ∉ arrived ++ [i]) ↔
            j < st.sender.nextI ∧ j ∉ arrived := by
          simp only [List.mem_append, List.mem_singleton, hj, or_false]
        rw [AList.lookup_erase_ne hj, h.waiting j]
        simp only [hiff]
    · intro j hj
      rcases List.mem_append.mp hj with hj | hj
      · exact h.arrived_lt j hj
      · rwa [List.mem_singleton.mp hj]
  · rw [h.waiting i, if_neg (show ¬ (i < st.sender.nextI ∧ i ∉ arrived) by tauto)]
    simp only [if_pos (not_lt.mp hlt)]
    exact produceUntil_spec hg hstart h (not_lt.mp hlt) (by omega)

/-! ## The rounds of the loop -/

theorem lateness_le_of_readIndex {newest : Option ℕ} (hindex : newest.getD 0 < 2 ^ 48)
    (hread : readIndex newest i = i) : newest.elim 0 (· - i) ≤ maxSeqLateness := by
  cases newest with
  | none => exact Nat.zero_le _
  | some n =>
    rw [Option.getD_some] at hindex
    have := le_add_of_readIndex hindex hread
    rw [Option.elim_some, maxSeqLateness]
    omega

theorem newest_eq (newest : Option ℕ) (i : ℕ) :
    (if newest.elim true (· < i) then some i else newest) = some (newest.elim i (max · i)) := by
  cases newest with
  | none => rfl
  | some n =>
    simp only [Option.elim_some, decide_eq_true_eq]
    split_ifs with hlt
    · rw [max_eq_right hlt.le]
    · rw [max_eq_left (not_lt.mp hlt)]

/-- The state of the loop after the packets `arrived`. -/
structure Accounted (c : Crypto) (m : StreamModel) (granularity : Granularity)
    (start : StreamRatchet) (k seekCap : ℕ) (arrived : List ℕ) (st : RunState w) : Prop where
  stocked : Stocked c m granularity start arrived st.sender st.stash
  nodup : arrived.Nodup
  tracks : ∃ done ⊆ arrived, st.receiver.Tracks c m granularity start k seekCap
    st.maxAuthedIndex done arrived.length
  /-- At packet level and without a seek-cap drop, every packet that is ahead is decrypted, so the
  catch-ups follow the gaps. -/
  catchup : granularity = .packet → st.receiver.stats.dropsSeekCap = 0 →
    st.maxAuthedIndex = arrived.max? ∧
      st.receiver.stats.maxCatchup = (skips arrived).max?.elim 0 (· + 1)

variable {k seekCap calls : ℕ} {newest newest' : Option ℕ} {done done' : List ℕ}
  {throwaway : KeySalt}

theorem maxCatchup_step {r r' : ReceiverKeyManager (SrtpStream w)} {buf : Bytes}
    {out : Except RecvDrop ℕ × Bytes}
    (h : r.Tracks c m .packet start k seekCap newest done calls)
    (hu : r.unprotect (SrtpStream.ops c throwaway w) c buf = .ok (out, r'))
    (h' : r'.Tracks c m .packet start k seekCap newest' done' (calls + 1)) :
    r'.stats.maxCatchup = max r.stats.maxCatchup
      (newest'.elim 0 (· + 1) - newest.elim 0 (· + 1)) := by
  have hcounts := h.window.callCounts hu
  have hderived := hcounts.derived
  have hnext : r.nextGeneration = newest.elim 0 (· + 1) := h.nextGeneration_eq
  have hnext' : r'.nextGeneration = newest'.elim 0 (· + 1) := h'.nextGeneration_eq
  rw [h.unwasted, h'.unwasted, hnext, hnext'] at hderived
  rw [hcounts.maxCatchup]
  congr 1
  omega

variable (h : Accounted c m granularity start k seekCap arrived st)

include h

theorem Accounted.next_catchup {r' : ReceiverKeyManager (SrtpStream w)}
    {out : Except RecvDrop ℕ × Bytes} {buf : Bytes}
    (htracks : st.receiver.Tracks c m granularity start k seekCap st.maxAuthedIndex done
      arrived.length)
    (hu : st.receiver.unprotect (SrtpStream.ops c throwaway w) c buf = .ok (out, r'))
    (htracks' : r'.Tracks c m granularity start k seekCap newest' done' (arrived.length + 1))
    (hnewest : granularity = .packet → out.1 ≠ .error .seekCapExceeded →
      newest' = some (st.maxAuthedIndex.elim i (max · i)))
    (hpacket : granularity = .packet) (hcap : r'.stats.dropsSeekCap = 0) :
    newest' = (arrived ++ [i]).max? ∧
      r'.stats.maxCatchup = (skips (arrived ++ [i])).max?.elim 0 (· + 1) := by
  have hdrops := ReceiverKeyManager.unprotect_drops hu .seekCapExceeded
  simp only [RecvStats.drops, hcap] at hdrops
  have hout : out.1 ≠ .error .seekCapExceeded := by
    intro herr
    rw [if_pos herr] at hdrops
    omega
  obtain ⟨hmax, hcatchup⟩ := h.catchup hpacket (by omega)
  have hnewest' : newest' = (arrived ++ [i]).max? := by
    rw [hnewest hpacket hout, hmax, max?_concat]
  subst hpacket
  refine ⟨hnewest', ?_⟩
  rw [maxCatchup_step htracks hu htracks', max?_skips_concat, hcatchup, hmax, hnewest']

theorem Accounted.measure (throwaway : KeySalt) (hg : granularity.Valid)
    (hstart : start.generation = 0) (hw : 0 < w) (hauth : Authentic c m granularity start)
    (hi : i ∉ arrived) (htol : m.Tolerates granularity k seekCap st.maxAuthedIndex i) :
    if m.Producible i then
      ∃ out st', st.measure c throwaway i = .ok (out, st') ∧
        Accounted c m granularity start k seekCap (arrived ++ [i]) st'
    else ∃ p, st.measure c throwaway i = .error (.panic p) := by
  have hfetch := h.stocked.fetch hg hstart hi
  unfold RunState.measure
  by_cases hprod : m.Producible i
  swap
  · rw [if_neg hprod] at hfetch ⊢
    obtain ⟨p, hp⟩ := hfetch
    rw [hp]
    exact ⟨p, rfl⟩
  rw [if_pos hprod] at hfetch ⊢
  obtain ⟨sender, stash, hfetch, hstocked⟩ := hfetch
  obtain ⟨done, hdone, htracks⟩ := h.tracks
  have hnodup : (arrived ++ [i]).Nodup := by
    rw [List.nodup_append_comm, List.singleton_append]
    exact List.nodup_cons.mpr ⟨hi, h.nodup⟩
  -- the packets so far are distinct numbers below the cursor
  have hcalls : arrived.length + 2 < 2 ^ 48 := by
    have hlength := length_le_of_lt hnodup hstocked.arrived_lt
    rw [List.length_append, List.length_singleton] at hlength
    have := hstocked.nextI_lt
    omega
  have hlength : (arrived ++ [i]).length = arrived.length + 1 := by
    rw [List.length_append, List.length_singleton]
  have hindex := htracks.index_lt
  rw [htracks.index] at hindex
  obtain ⟨⟨out, buf⟩, r', hu, ⟨g, hout, hread, htracks'⟩ | ⟨d, hout, htracks', hlate, hbehind⟩⟩ :=
    htracks.unprotect_tolerated throwaway hg hw hprod.1 hcalls (by have := hprod.2; omega)
      (fun hmem => hi (hdone hmem)) hauth htol
  · -- decrypted
    obtain rfl : out = .ok g := hout
    have hnear := lateness_le_of_readIndex hindex hread
    simp only [hfetch, hu, if_pos hnear, newest_eq]
    refine ⟨_, _, rfl, hstocked, hnodup, ⟨i :: done, ?_, by rwa [hlength]⟩, ?_⟩
    · intro j hj
      rcases List.mem_cons.mp hj with rfl | hj
      · simp
      · exact List.mem_append_left _ (hdone hj)
    · exact h.next_catchup htracks hu htracks' fun _ _ => rfl
  · -- dropped
    obtain rfl : out = .error d := hout
    have haccounted : Accounted c m granularity start k seekCap (arrived ++ [i])
        ⟨sender, stash, r', st.maxAuthedIndex⟩ := by
      refine ⟨hstocked, hnodup, ⟨done, fun j hj => List.mem_append_left _ (hdone hj),
        by rwa [hlength]⟩, ?_⟩
      refine h.next_catchup htracks hu htracks' ?_
      intro hpacket hcap
      obtain ⟨n, hn, hle⟩ := hbehind hpacket fun heq => hcap (by rw [heq])
      rw [hn, Option.elim_some, max_eq_left hle]
    simp only [hfetch, hu]
    cases d with
    | authFail =>
      obtain ⟨n, hn, hle⟩ := hlate rfl
      have hfar : maxSeqLateness ≤ st.maxAuthedIndex.elim 0 (· - i) := by
        rw [hn, Option.elim_some, maxSeqLateness]
        omega
      simp only [if_pos hfar]
      exact ⟨_, _, rfl, haccounted⟩
    | _ => exact ⟨_, _, rfl, haccounted⟩

omit h in
/-- A first packet that is a full cycle or more into the stream stops the benchmark. -/
theorem Accounted.measure_fails (throwaway : KeySalt) (hw : 0 < w)
    (h : Accounted c m .packet start k seekCap [] st) (hnone : st.maxAuthedIndex = none)
    (hstart : start.generation = 0) (hauth : Authentic c m .packet start)
    (hprod : m.Producible i) (hcycle : 2 ^ 16 ≤ i) (hcap : i % 2 ^ 16 < seekCap) :
    st.measure c throwaway i = .error (.failedTooEarly i 0) := by
  have hfetch := h.stocked.fetch trivial hstart (i := i) List.not_mem_nil
  rw [if_pos hprod] at hfetch
  obtain ⟨sender, stash, hfetch, -⟩ := hfetch
  obtain ⟨done, hdone, htracks⟩ := h.tracks
  rw [hnone, List.subset_nil.mp hdone] at htracks
  obtain ⟨r', hu⟩ := htracks.first_packet_fails throwaway hw hprod.1
    (by have := hprod.2; omega) hauth hcycle hcap
  unfold RunState.measure
  simp only [hfetch, hu, hnone, Option.elim_none]
  rw [if_neg (by decide)]

theorem Accounted.checkCounters {cfg : RunConfig} (hcfg : cfg.granularity = granularity)
    {net : NetworkStats} (hdelivered : net.delivered = arrived.length)
    (hgap : net.displacement.maxGap = (skips arrived).max?.getD 0) :
    cfg.checkCounters net st.receiver = .ok ⟨net, st.receiver.stats⟩ := by
  obtain ⟨done, -, htracks⟩ := h.tracks
  have houtcomes := htracks.outcomes
  have hderived := htracks.derived
  rw [htracks.unwasted, Nat.zero_add, ReceiverKeyManager.nextGeneration] at hderived
  unfold RunConfig.checkCounters
  dsimp only
  rw [if_neg (by omega), if_neg (not_not.mpr hderived), if_neg]
  rintro ⟨hpacket, hcap, hpos, hne⟩
  obtain ⟨-, hcatchup⟩ := h.catchup (hcfg.symm.trans hpacket) hcap
  have hskips : skips arrived ≠ [] := by
    intro hnil
    have hlen : (skips arrived).length = arrived.length := by simp [skips]
    rw [hnil, List.length_nil] at hlen
    omega
  obtain ⟨g, hg⟩ : ∃ g, (skips arrived).max? = some g :=
    Option.ne_none_iff_exists'.mp fun hnone => hskips (List.max?_eq_none_iff.mp hnone)
  rw [hg, Option.elim_some] at hcatchup
  rw [hg, Option.getD_some] at hgap
  exact hne (by rw [hcatchup, hgap])

omit h

theorem Accounted.run (throwaway : KeySalt) (hg : granularity.Valid)
    (hstart : start.generation = 0) (hw : 0 < w) (hauth : Authentic c m granularity start)
    {st₀ : RunState w} (h₀ : Accounted c m granularity start k seekCap [] st₀) {l : List ℕ}
    (hnodup : l.Nodup)
    (htol : ∀ pre i, pre ++ [i] <+: l → ∀ outs st,
      Runs.run (RunState.measure c throwaway) st₀ pre = .ok (outs, st) →
        m.Tolerates granularity k seekCap st.maxAuthedIndex i) :
    (∃ outs st, Runs.run (RunState.measure c throwaway) st₀ l = .ok (outs, st) ∧
        Accounted c m granularity start k seekCap l st) ∨
      (∃ p, Runs.run (RunState.measure c throwaway) st₀ l = .error (.panic p)) ∧
        ∃ i ∈ l, ¬ m.Producible i := by
  induction l using List.reverseRecOn with
  | nil => exact .inl ⟨[], st₀, rfl, h₀⟩
  | append_singleton l i ih =>
    obtain ⟨hl, -, hnew⟩ := List.nodup_append.mp hnodup
    have hi : i ∉ l := fun hmem => hnew i hmem i (List.mem_singleton_self i) rfl
    rw [run_append]
    rcases ih hl fun pre j hpre => htol pre j (hpre.trans (List.prefix_append l [i])) with
      ⟨outs, st, hrun, h⟩ | ⟨⟨p, hrun⟩, j, hj, hprod⟩
    · have hmeasure := h.measure throwaway hg hstart hw hauth hi
        (htol l i (List.prefix_refl _) outs st hrun)
      rw [hrun]
      dsimp only
      by_cases hprod : m.Producible i
      · rw [if_pos hprod] at hmeasure
        obtain ⟨out, st', hstep, h'⟩ := hmeasure
        rw [run_singleton.mpr hstep]
        exact .inl ⟨outs ++ [out], st', rfl, h'⟩
      · rw [if_neg hprod] at hmeasure
        obtain ⟨p, hstep⟩ := hmeasure
        rw [run_cons_of_error hstep]
        exact .inr ⟨⟨p, rfl⟩, i, by simp, hprod⟩
    · rw [hrun]
      exact .inr ⟨⟨p, rfl⟩, j, List.mem_append_left _ hj, hprod⟩

/-! ## Whole runs -/

def startRatchet : StreamRatchet := ⟨⟨ratchetSeed, by decide⟩, 0⟩

variable {ρ : Type*} {rng : Rng ρ} {cfg : RunConfig} {throwaway' : KeySalt}

theorem RunConfig.setup_ok {st₀ : RunState (windowBits cfg.replayWindow)}
    (h : cfg.setup c throwaway throwaway' = .ok (m, st₀)) :
    StreamModel.new cfg.payload ssrc = .ok m ∧ st₀.maxAuthedIndex = none ∧
      Accounted c m cfg.granularity startRatchet cfg.keyWindow cfg.seekCap [] st₀ := by
  unfold RunConfig.setup at h
  obtain ⟨model, hmodel, h⟩ := bind_ok_iff.mp h
  obtain ⟨ratchet, hratchet, h⟩ := bind_ok_iff.mp h
  obtain ⟨sender, hsender, h⟩ := bind_ok_iff.mp h
  obtain ⟨receiver, hreceiver, h⟩ := bind_ok_iff.mp h
  cases h
  obtain rfl : startRatchet = ratchet := Except.ok.inj hratchet
  have hssrc : ssrc = m.ssrc := by
    unfold StreamModel.new at hmodel
    split_ifs at hmodel
    cases hmodel
    rfl
  rw [hssrc] at hreceiver
  have hproduced := SimulatedSender.produced_new rfl hsender
  have hzero : sender.nextI = 0 := hproduced.nextI
  refine ⟨hmodel, rfl, ?_, List.nodup_nil, ⟨[], List.Subset.refl _,
    ReceiverKeyManager.tracks_new rfl hreceiver⟩, ?_⟩
  · refine ⟨by rwa [hzero], ?_, nofun, ?_⟩
    · intro j
      rw [AList.lookup_empty, hzero, if_neg (by simp)]
    · intro j hj
      dsimp only at hj
      omega
  · intro _ _
    obtain ⟨s, hk, -, -, rfl⟩ := ReceiverKeyManager.new_ok hreceiver
    exact ⟨rfl, rfl⟩

theorem RunConfig.deliver_ok {schedule : List (ℕ × ℕ)} {net : NetworkStats}
    (h : cfg.deliver rng m = .ok (schedule, net)) :
    (schedule.map Prod.snd).Nodup ∧ (∀ a ∈ schedule, a.2 < cfg.packets) ∧
      net.delivered = (schedule.map Prod.snd).length ∧
      net.displacement.maxGap = (skips (schedule.map Prod.snd)).max?.getD 0 := by
  obtain ⟨netCfg, -, h⟩ := bind_ok_iff.mp h
  have hs : ∀ i < cfg.packets, m.sendNs i = .ok (m.sendTime i) := by
    intro i hi
    obtain ⟨t, ht⟩ := exists_sendNs_of_disturb h i hi
    rw [ht, m.sendNs_ok ht]
  obtain ⟨-, hnodup, hmem⟩ := disturb_schedule hs h
  obtain ⟨-, hmeasured, hdelivered, -⟩ := disturb_ok hs h
  obtain ⟨stats, hstats, -, -, -, hgap⟩ := measureDisplacement_ok schedule
  obtain rfl : net.displacement = stats := Except.ok.inj (hmeasured.symm.trans hstats)
  exact ⟨hnodup, fun a ha => ((hmem a.1 a.2).mp ha).1, by rw [hdelivered, List.length_map], hgap⟩

/-- Every packet that arrives is one that the receiver can take in the state before it. -/
def RunConfig.Tolerated (rng : Rng ρ) (c : Crypto) (throwaway throwaway' : KeySalt)
    (cfg : RunConfig) : Prop :=
  ∀ model st₀ schedule net, cfg.setup c throwaway throwaway' = .ok (model, st₀) →
    cfg.deliver rng model = .ok (schedule, net) → ∀ pre i, pre ++ [i] <+: schedule.map Prod.snd →
      ∀ outs st, Runs.run (RunState.measure c throwaway') st₀ pre = .ok (outs, st) →
        model.Tolerates cfg.granularity cfg.keyWindow cfg.seekCap st.maxAuthedIndex i

theorem RunState.mem_of_run {st₀ : RunState w} {pre : List ℕ} {outs : List (Except RecvDrop ℕ)}
    (h₀ : st₀.maxAuthedIndex = none)
    (hrun : Runs.run (RunState.measure c throwaway) st₀ pre = .ok (outs, st)) {n : ℕ}
    (hn : st.maxAuthedIndex = some n) : n ∈ pre := by
  induction pre using List.reverseRecOn generalizing outs st with
  | nil =>
    cases hrun
    cases h₀.symm.trans hn
  | append_singleton pre i ih =>
    obtain ⟨outs', st', out, hpre, hstep, -⟩ := run_concat_ok_iff.mp hrun
    have hnewest : st.maxAuthedIndex = some i ∨ st.maxAuthedIndex = st'.maxAuthedIndex := by
      unfold RunState.measure at hstep
      dsimp only at hstep
      split at hstep
      · cases hstep
      split at hstep
      · cases hstep
      · split_ifs at hstep <;> cases hstep
        · exact .inl rfl
        · exact .inr rfl
      · split_ifs at hstep
        cases hstep
        exact .inr rfl
      · cases hstep
        exact .inr rfl
    rcases hnewest with hi | hsame
    · obtain rfl : i = n := Option.some.inj (hi.symm.trans hn)
      simp
    · exact List.mem_append_left _ (ih hpre (hsame.symm.trans hn))

theorem RunConfig.tolerated_of_short (rng : Rng ρ) (c : Crypto) (throwaway throwaway' : KeySalt)
    (hpackets : cfg.packets ≤ 32768) : cfg.Tolerated rng c throwaway throwaway' := by
  intro model st₀ schedule net hsetup hdeliver pre i hpre outs st hrun
  obtain ⟨-, hbelow, -⟩ := RunConfig.deliver_ok hdeliver
  have hshort : ∀ j ∈ pre ++ [i], j < 32768 := by
    intro j hj
    obtain ⟨a, ha, rfl⟩ := List.mem_map.mp (hpre.subset hj)
    exact (hbelow a ha).trans_le hpackets
  have hi := hshort i (by simp)
  obtain ⟨-, hnone, -⟩ := RunConfig.setup_ok hsetup
  have hnewest : ∀ n ∈ st.maxAuthedIndex, n < 32768 := fun n hn =>
    hshort n (List.mem_append_left _ (RunState.mem_of_run hnone hrun hn))
  have hread : readIndex st.maxAuthedIndex i = i := by
    apply readIndex_of_near
    · exact fun n hn => (hnewest n hn).trans (by decide)
    · cases st.maxAuthedIndex with
      | none => exact hi.trans (by decide)
      | some n => exact hi.trans_le (Nat.le_add_left _ _)
    · exact fun n hn => (hnewest n hn).trans_le (Nat.le_add_left _ _)
  refine .inl ⟨hread, ?_⟩
  rw [hread]
  apply model.readGeneration_self
  intro _
  have := Nat.div_le_self i model.packetsPerFrame
  unfold framePeriod
  omega

theorem RunConfig.run_of_deliver {rng : Rng ρ} {throwaway throwaway' : KeySalt} {cfg : RunConfig}
    {model : StreamModel} {st₀ : RunState (windowBits cfg.replayWindow)}
    {schedule : List (ℕ × ℕ)} {net : NetworkStats}
    (hsetup : cfg.setup c throwaway throwaway' = .ok (model, st₀))
    (hdeliver : cfg.deliver rng model = .ok (schedule, net)) :
    cfg.run rng c throwaway throwaway' =
      match Runs.run (RunState.measure c throwaway') st₀ (schedule.map Prod.snd) with
      | .error e => .error e
      | .ok (_, st) => cfg.checkCounters net st.receiver := by
  unfold RunConfig.run
  cases hrun : Runs.run (RunState.measure c throwaway') st₀ (schedule.map Prod.snd) with
  | error e => simp only [hsetup, hdeliver, hrun]
  | ok r => simp only [hsetup, hdeliver, hrun]

/-- In a run whose packets the receiver can take, no check fails: the run ends with its counters,
or a component aborts because a packet cannot be produced. -/
theorem RunConfig.run_passes_checks (rng : Rng ρ) (c : Crypto) (throwaway throwaway' : KeySalt)
    (cfg : RunConfig) (hg : cfg.granularity.Valid)
    (hauth : ∀ m, StreamModel.new cfg.payload ssrc = .ok m →
      Authentic c m cfg.granularity startRatchet)
    (htol : cfg.Tolerated rng c throwaway throwaway') :
    (∀ e, cfg.run rng c throwaway throwaway' = .error e → ∃ p, e = .panic p) ∧
      ∀ model st₀ schedule net, cfg.setup c throwaway throwaway' = .ok (model, st₀) →
        cfg.deliver rng model = .ok (schedule, net) →
          (∀ a ∈ schedule, model.Producible a.2) →
            ∃ recv, cfg.run rng c throwaway throwaway' = .ok ⟨net, recv⟩ := by
  -- the loop, once both ends and the network are set up
  have hloop : ∀ model st₀ schedule net, cfg.setup c throwaway throwaway' = .ok (model, st₀) →
      cfg.deliver rng model = .ok (schedule, net) →
        (∃ recv, cfg.run rng c throwaway throwaway' = .ok ⟨net, recv⟩) ∨
          (∃ p, cfg.run rng c throwaway throwaway' = .error (.panic p)) ∧
            ∃ a ∈ schedule, ¬ model.Producible a.2 := by
    intro model st₀ schedule net hsetup hdeliver
    obtain ⟨hmodel, -, h₀⟩ := RunConfig.setup_ok hsetup
    obtain ⟨hnodup, -, hdelivered, hgap⟩ := RunConfig.deliver_ok hdeliver
    rw [RunConfig.run_of_deliver hsetup hdeliver]
    rcases Accounted.run throwaway' hg rfl (windowBits_pos _) (hauth model hmodel) h₀ hnodup
      (htol model st₀ schedule net hsetup hdeliver) with
      ⟨outs, st, hrun, h⟩ | ⟨⟨p, hrun⟩, i, hi, hprod⟩
    · rw [hrun]
      exact .inl ⟨_, h.checkCounters rfl hdelivered hgap⟩
    · obtain ⟨a, ha, rfl⟩ := List.mem_map.mp hi
      rw [hrun]
      exact .inr ⟨⟨p, rfl⟩, a, ha, hprod⟩
  constructor
  · intro e he
    cases hsetup : cfg.setup c throwaway throwaway' with
    | error p =>
      rw [RunConfig.run, hsetup] at he
      cases he
      exact ⟨p, rfl⟩
    | ok s =>
      obtain ⟨model, st₀⟩ := s
      cases hdeliver : cfg.deliver rng model with
      | error p =>
        rw [RunConfig.run, hsetup] at he
        dsimp only at he
        rw [hdeliver] at he
        cases he
        exact ⟨p, rfl⟩
      | ok d =>
        obtain ⟨schedule, net⟩ := d
        rcases hloop model st₀ schedule net hsetup hdeliver with ⟨recv, hrun⟩ | ⟨⟨p, hrun⟩, -⟩
        · cases he.symm.trans hrun
        · cases he.symm.trans hrun
          exact ⟨p, rfl⟩
  · intro model st₀ schedule net hsetup hdeliver hprod
    rcases hloop model st₀ schedule net hsetup hdeliver with hok | ⟨-, a, ha, hbad⟩
    · exact hok
    · exact absurd (hprod a ha) hbad

/-- The default settings of the benchmark, but for a loss of one half. -/
def lossyRun (packets : ℕ) (singlePath : Bool) : RunConfig where
  granularity := .packet
  payload := 1424
  packets := packets
  jitterNs := 50000
  loss := 1 / 2
  skewNs := 150000
  singlePath := singlePath
  keyWindow := 512
  seekCap := 4096
  replayWindow := 512
  seed := 1

theorem RunConfig.run_passes_checks_three :
    ∃ outcome, (lossyRun 3 false).run Rng.counter Crypto.toy (ByteArr.replicate _ 0)
      (ByteArr.replicate _ 0) = .ok outcome := by
  obtain ⟨-, hreturns⟩ := RunConfig.run_passes_checks Rng.counter Crypto.toy
    (ByteArr.replicate _ 0) (ByteArr.replicate _ 0) (lossyRun 3 false) trivial
    (fun m _ => authentic_toy m _ _) (RunConfig.tolerated_of_short _ _ _ _ (by decide))
  obtain ⟨schedule, net, hdeliver, -⟩ := exists_of_returns (q := fun _ _ => true)
    (x := (lossyRun 3 false).deliver Rng.counter ⟨1424, ssrc, by decide⟩) (by decide +kernel)
  obtain ⟨-, hbelow, -⟩ := RunConfig.deliver_ok hdeliver
  have hprod : ∀ a ∈ schedule, (StreamModel.mk 1424 ssrc (by decide)).Producible a.2 := by
    intro a ha
    have : a.2 < 3 := hbelow a ha
    exact ⟨by decide, by omega⟩
  obtain ⟨recv, hrun⟩ := hreturns _ _ schedule net rfl hdeliver hprod
  exact ⟨_, hrun⟩

end Benchmark

/-! ## An outage -/

/-- A generator whose first `n` draws are below one half, and whose jitters are zero. -/
def Rng.outage (n : ℕ) : Rng ℕ where
  seedFromU64 _ := 0
  random g := (if g < n then 0 else 1 / 2, g + 1)
  randomRange _ g := (0, g + 1)
  randomRange_le _ _ := Nat.zero_le _

section Outage

open NetworkConfig

variable {send : ℕ → ℕ} {n base jitter seed : ℕ}

theorem drawJitter_outage (n g : ℕ) :
    (PathConfig.mk base jitter (.independent (1 / 2))).drawJitter (Rng.outage n)
        (.new (.independent (1 / 2))) g =
      if g < n then (none, .new (.independent (1 / 2)), g + 1)
      else (some 0, .new (.independent (1 / 2)), g + 2) := by
  unfold PathConfig.drawJitter LossState.nextLost LossState.new Rng.outage
  dsimp only
  split_ifs <;> simp_all

theorem drawsFrom_outage {i : ℕ} (hi : i ≤ n) :
    (NetworkConfig.mk ⟨base, jitter, .independent (1 / 2)⟩ none seed).drawsFrom (Rng.outage n) i =
      ⟨i, .new (.independent (1 / 2)), none⟩ := by
  induction i with
  | zero => rfl
  | succ i ih =>
    rw [drawsFrom, ih (by omega)]
    simp only [drawCopies, drawJitter_outage, if_pos (show i < n by omega), drawJitterB]

theorem copies_outage {i : ℕ} (hi : i ≤ n) :
    (NetworkConfig.mk ⟨base, jitter, .independent (1 / 2)⟩ none seed).copies (Rng.outage n) send i =
      (if i < n then none else some (send i + base), none) := by
  rw [copies, drawsFrom_outage hi]
  simp only [drawCopies, drawJitter_outage, drawJitterB, arrivals]
  split_ifs <;> rfl

theorem disturb_outage {sendNs : ℕ → Except Panic ℕ} (hs : ∀ i < n + 1, sendNs i = .ok (send i))
    (hfit : send n + base ≤ u64Max) :
    ∃ stats, disturb (Rng.outage n) (n + 1) sendNs
        ⟨⟨base, jitter, .independent (1 / 2)⟩, none, seed⟩ = .ok ([(send n + base, n)], stats) := by
  have hfits : ∀ i < n + 1, Fits ((NetworkConfig.mk ⟨base, jitter, .independent (1 / 2)⟩ none
      seed).copies (Rng.outage n) send i) := by
    intro i hi t ht
    rw [copies_outage (by omega)] at ht
    rcases Nat.lt_succ_iff_lt_or_eq.mp hi with hlt | rfl
    · simp [survivors, hlt] at ht
    · obtain rfl : t = send i + base := by simpa [survivors] using ht
      exact hfit
  have hnone : (NetworkConfig.mk ⟨base, jitter, .independent (1 / 2)⟩ none seed).delivered
      (Rng.outage n) send n = [] := by
    apply List.eq_nil_iff_forall_not_mem.mpr
    rintro ⟨t, i⟩ hmem
    obtain ⟨hlt, hmin⟩ := mem_delivered.mp hmem
    rw [copies_outage hlt.le, if_pos hlt] at hmin
    cases hmin
  obtain ⟨⟨schedule, stats⟩, hd⟩ := (exists_disturb_iff hs).mpr hfits
  obtain ⟨hschedule, -⟩ := disturb_ok hs hd
  rw [delivered_succ, hnone, copies_outage le_rfl, if_neg (lt_irrefl n)] at hschedule
  exact ⟨stats, by rw [hd, hschedule]; rfl⟩

end Outage

namespace Benchmark

theorem disturb_sendNs_outage (m : StreamModel) {n base jitter seed : ℕ}
    (hn : n * 1000000000 < 2 ^ 64) (hfit : m.sendTime n + base ≤ u64Max) :
    ∃ stats, disturb (Rng.outage n) (n + 1) m.sendNs
        ⟨⟨base, jitter, .independent (1 / 2)⟩, none, seed⟩ =
      .ok ([(m.sendTime n + base, n)], stats) := by
  refine disturb_outage (fun i hi => m.sendNs_of_fit ?_) hfit
  have hframe : i / m.packetsPerFrame ≤ n := (Nat.div_le_self _ _).trans (Nat.le_of_lt_succ hi)
  exact lt_of_le_of_lt (Nat.mul_le_mul_right _ hframe) hn

/-- An outage of one cycle of sequence numbers: the packet after it is read as packet 0, and the
benchmark stops on a packet that failed to authenticate although it is not late. -/
theorem RunConfig.run_fails_after_outage :
    (lossyRun (65536 + 1) true).run (Rng.outage 65536) Crypto.toy (ByteArr.replicate _ 0)
      (ByteArr.replicate _ 0) = .error (.failedTooEarly 65536 0) := by
  obtain ⟨st₀, hsetup⟩ : ∃ st₀, (lossyRun (65536 + 1) true).setup Crypto.toy
    (ByteArr.replicate _ 0) (ByteArr.replicate _ 0) = .ok (⟨1424, ssrc, by decide⟩, st₀) := ⟨_, rfl⟩
  obtain ⟨-, hnone, h₀⟩ := RunConfig.setup_ok hsetup
  -- only packet 65536 arrives
  have hnet : (lossyRun (65536 + 1) true).network =
      .ok ⟨⟨baseDelayNs, 50000, .independent (1 / 2)⟩, none, 1⟩ := by
    norm_num [RunConfig.network, lossyRun, lossModel]
  obtain ⟨stats, hdisturb⟩ := disturb_sendNs_outage (StreamModel.mk 1424 ssrc (by decide))
    (n := 65536) (by decide) (show _ + baseDelayNs ≤ _ by decide +kernel)
  have hdeliver : (lossyRun (65536 + 1) true).deliver (Rng.outage 65536) _ = .ok (_, stats) :=
    bind_ok_iff.mpr ⟨_, hnet, hdisturb⟩
  have hmeasure : st₀.measure Crypto.toy (ByteArr.replicate _ 0) 65536 =
      .error (.failedTooEarly 65536 0) :=
    Accounted.measure_fails (ByteArr.replicate _ 0) (windowBits_pos _) h₀ hnone rfl
      (authentic_toy _ _ _) ⟨by decide, by decide⟩ (by decide) (by decide)
  rw [RunConfig.run_of_deliver hsetup hdeliver, List.map_singleton, run_cons_of_error hmeasure]

end Benchmark

end SafeCast
