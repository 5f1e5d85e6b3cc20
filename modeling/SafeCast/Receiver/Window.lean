import SafeCast.Library.Runs
import SafeCast.Receiver.Manager

/-! # The key window of the receiver

`KeysFrom` says that every key in the state is the key its generation has in the
chain. `KeyWindow` adds that the ring is the window of the last `k` generations. Both
are kept by every call, whatever the SRTP library answers.
-/

namespace SafeCast

open SlotRing Runs

variable {c : Crypto} {start : StreamRatchet}

theorem catchUp_moveTo {k g a m : ℕ} (ha : start.generation ≤ a) (hm : g + 1 = a + m)
    (q : List (ℕ × KeySalt)) :
    catchUp c k g m (start.moveTo c a, q) =
      (start.moveTo c (g + 1), (segment (start.keyAt c) a m).foldl (pushBounded k) q) := by
  induction m generalizing a q with
  | zero => rw [hm]; rfl
  | succ m ih =>
    have hle : (start.moveTo c a).generation ≤ g := by
      rw [StreamRatchet.moveTo_generation]
      omega
    rw [catchUp, if_pos hle, StreamRatchet.nextKeySalt_moveTo ha, segment_cons, List.foldl_cons]
    exact ih (by omega) (by omega) _

namespace ReceiverKeyManager

variable {σ : Type*} {ops : SrtpOps σ} {r r' : ReceiverKeyManager σ} {buf : Bytes}

/-- Every key in the state is the one its generation has, counted from `start`. -/
structure KeysFrom (c : Crypto) (start : StreamRatchet) (r : ReceiverKeyManager σ) : Prop where
  start_le : start.generation ≤ r.ratchet.generation
  ratchet : r.ratchet = start.moveTo c r.ratchet.generation
  ring : ∀ g ks, some (g, ks) ∈ r.ring → ks = start.keyAt c g
  installed : ∀ h, r.installed = some h → r.session.keySalt = start.keyAt c h

theorem keysFrom_new {stream : Except SrtpError σ} {scheme : GenerationScheme} {k seekCap : ℕ}
    (h : new ops stream scheme start k seekCap = .ok r) : KeysFrom c start r := by
  obtain ⟨s, hk, -, -, rfl⟩ := new_ok h
  refine ⟨le_rfl, by simp, ?_, ?_⟩
  · intro g ks hmem
    cases (List.mem_replicate.mp hmem).2
  · rintro h ⟨⟩

theorem KeysFrom.fetchKey_ahead (hr : KeysFrom c start r) {g jump : ℕ}
    (hg : r.ratchet.generation ≤ g) :
    r.fetchKey c g (.ahead jump) = .ok (start.keyAt c g, some ⟨start.moveTo c (g + 1),
      (segment (start.keyAt c) r.ratchet.generation (g + 1 - r.ratchet.generation)).foldl
        (pushBounded r.ring.length) [], jump⟩) := by
  obtain ⟨m, hm⟩ : ∃ m, g + 1 - r.ratchet.generation = m + 1 :=
    ⟨g - r.ratchet.generation, by omega⟩
  unfold fetchKey
  rw [hr.ratchet]
  simp only [StreamRatchet.moveTo_generation]
  rw [catchUp_moveTo hr.start_le (by omega), hm]
  simp only [getLast?_foldl_pushBounded]
  rw [show r.ratchet.generation + m = g by omega]

theorem fetchKey_ahead_le {g jump : ℕ} {y : KeySalt × Option PendingCatchup}
    (h : r.fetchKey c g (.ahead jump) = .ok y) : r.ratchet.generation ≤ g := by
  by_contra hg
  unfold fetchKey at h
  rw [show g + 1 - r.ratchet.generation = 0 by omega] at h
  cases h

theorem KeysFrom.plan_keySalt (hr : KeysFrom c start r) {p : Plan}
    (h : r.plan c buf = .ok (.ok p)) : p.keySalt = start.keyAt c p.generation := by
  obtain ⟨-, -, placement, hplace, hfetch⟩ := plan_ok h
  cases placement with
  | inWindow ks =>
    obtain ⟨f, -, -, -, hslot⟩ := classify_inWindow hplace
    obtain ⟨rfl, -⟩ := Prod.mk.inj (Except.ok.inj hfetch)
    exact hr.ring _ _ (List.mem_of_getElem? hslot)
  | ahead jump =>
    rw [hr.fetchKey_ahead (fetchKey_ahead_le hfetch)] at hfetch
    exact (Prod.mk.inj (Except.ok.inj hfetch)).1.symm

theorem KeysFrom.cipherKey (hr : KeysFrom c start r) {p : Plan}
    (h : r.plan c buf = .ok (.ok p)) : r.cipherKey p = start.keyAt c p.generation := by
  unfold ReceiverKeyManager.cipherKey
  split
  · rename_i hi
    exact hr.installed _ hi
  · exact hr.plan_keySalt h

theorem KeysFrom.adopt (hr : KeysFrom c start r) {p : Plan} (h : r.plan c buf = .ok (.ok p)) :
    KeysFrom c start (r.adopt p) := by
  obtain ⟨-, -, placement, -, hfetch⟩ := plan_ok h
  cases placement with
  | inWindow ks =>
    obtain ⟨-, hnone⟩ := Prod.mk.inj (Except.ok.inj hfetch)
    unfold ReceiverKeyManager.adopt
    rw [← hnone]
    exact hr
  | ahead jump =>
    have hg := fetchKey_ahead_le hfetch
    rw [hr.fetchKey_ahead hg] at hfetch
    unfold ReceiverKeyManager.adopt
    rw [← (Prod.mk.inj (Except.ok.inj hfetch)).2]
    refine ⟨?_, rfl, ?_, hr.installed⟩
    · exact hr.start_le.trans (hg.trans (Nat.le_succ _))
    · intro g ks hmem
      rcases mem_storeAll hmem with hmem | hmem
      · exact hr.ring g ks hmem
      · exact eq_of_mem_segment (mem_of_mem_foldl_pushBounded r.ring_pos hmem)

theorem KeysFrom.unprotect (hr : KeysFrom c start r) {out : Except RecvDrop ℕ × Bytes}
    (h : r.unprotect ops c buf = .ok (out, r')) : KeysFrom c start r' := by
  rcases unprotect_cases h with ⟨d, stats, -, -, rfl⟩ |
    ⟨p, e, d, stream, stats, hplan, -, -, -, rfl⟩ | ⟨p, plain, stream, stats, hplan, -, -, rfl⟩
  · exact ⟨hr.start_le, hr.ratchet, hr.ring, hr.installed⟩
  · refine ⟨hr.start_le, hr.ratchet, hr.ring, ?_⟩
    rintro h ⟨⟩
    exact hr.cipherKey hplan
  · have ha := hr.adopt hplan
    refine ⟨ha.start_le, ha.ratchet, ha.ring, ?_⟩
    rintro h ⟨⟩
    exact hr.cipherKey hplan

/-- The ring is the window of the last `k` generations, the ratchet stands at the next
one, and the key in the cipher is not older than the window. -/
structure KeyWindow (c : Crypto) (start : StreamRatchet) (k : ℕ) (r : ReceiverKeyManager σ) :
    Prop extends KeysFrom c start r where
  generation : r.ratchet.generation = r.nextGeneration
  window : r.ring = window k (start.keyAt c) r.nextGeneration
  recent : ∀ h, r.installed = some h → r.nextGeneration ≤ h + k
  loaded : r.installed = none → r.frontier = none

theorem keyWindow_new {stream : Except SrtpError σ} {scheme : GenerationScheme} {k seekCap : ℕ}
    (hs : start.generation = 0) (h : new ops stream scheme start k seekCap = .ok r) :
    KeyWindow c start k r := by
  have hkeys : KeysFrom c start r := keysFrom_new h
  obtain ⟨s, hk, -, -, rfl⟩ := new_ok h
  refine ⟨hkeys, hs, rfl, ?_, fun _ => rfl⟩
  rintro h ⟨⟩

variable {k : ℕ}

theorem KeyWindow.length_ring (hr : KeyWindow c start k r) : r.ring.length = k := by
  rw [hr.window, length_window]

theorem KeyWindow.slot_iff (hr : KeyWindow c start k r) {s g : ℕ} {ks : KeySalt} :
    r.ring[s]? = some (some (g, ks)) ↔
      r.nextGeneration ≤ g + k ∧ g < r.nextGeneration ∧ s = g % k ∧ ks = start.keyAt c g := by
  rw [hr.window]
  constructor
  · intro h
    obtain ⟨hg, hk, rfl, rfl⟩ := of_window_getElem? _ h
    exact ⟨hk, hg, rfl, rfl⟩
  · rintro ⟨hk, hg, rfl, rfl⟩
    exact window_getElem? _ hg hk

theorem KeyWindow.plan_cases (hr : KeyWindow c start k r) {p : Plan}
    (h : r.plan c buf = .ok (.ok p)) :
    (p.pending = none ∧ ∃ f, r.frontier = some f ∧ p.generation ≤ f ∧ f < p.generation + k) ∨
      (r.nextGeneration ≤ p.generation ∧ ∃ jump, p.generation + 1 = r.nextGeneration + jump ∧
        p.pending = some ⟨start.moveTo c (p.generation + 1),
          (segment (start.keyAt c) r.nextGeneration jump).foldl (pushBounded k) [], jump⟩) := by
  obtain ⟨-, -, placement, hplace, hfetch⟩ := plan_ok h
  cases placement with
  | inWindow ks =>
    obtain ⟨f, hf, hg, hk, -⟩ := classify_inWindow hplace
    obtain ⟨-, hnone⟩ := Prod.mk.inj (Except.ok.inj hfetch)
    rw [hr.length_ring] at hk
    exact .inl ⟨hnone.symm, f, hf, hg, hk⟩
  | ahead jump =>
    obtain ⟨-, hg, hj⟩ := classify_ahead hplace
    rw [hr.fetchKey_ahead (hr.generation.trans_le hg), hr.generation, hr.length_ring,
      show p.generation + 1 - r.nextGeneration = jump by omega] at hfetch
    exact .inr ⟨hg, jump, hj, (Prod.mk.inj (Except.ok.inj hfetch)).2.symm⟩

theorem KeyWindow.adopt (hr : KeyWindow c start k r) (hk : 0 < k) {p : Plan}
    (h : r.plan c buf = .ok (.ok p)) :
    (r.adopt p).ratchet.generation = (r.adopt p).nextGeneration ∧
      (r.adopt p).ring = SlotRing.window k (start.keyAt c) (r.adopt p).nextGeneration ∧
      (r.adopt p).nextGeneration ≤ p.generation + k := by
  rcases hr.plan_cases h with ⟨hnone, f, hf, hg, hfk⟩ | ⟨hg, jump, hj, hpending⟩
  · unfold ReceiverKeyManager.adopt
    rw [hnone]
    refine ⟨hr.generation, hr.window, ?_⟩
    rw [nextGeneration_of_frontier hf]
    exact hfk
  · unfold ReceiverKeyManager.adopt
    rw [hpending]
    refine ⟨rfl, ?_, ?_⟩
    · change storeAll r.ring _ = SlotRing.window k (start.keyAt c) (p.generation + 1)
      rw [hr.window, storeAll_backlog _ hk, hj]
    · change p.generation + 1 ≤ p.generation + k
      omega

theorem KeyWindow.frontier_adopt (hr : KeyWindow c start k r) {plan : Plan}
    (h : r.plan c buf = .ok (.ok plan)) :
    (r.adopt plan).frontier =
      some (r.frontier.elim plan.generation fun f => max f plan.generation) := by
  rcases hr.plan_cases h with ⟨hnone, f, hf, hle, -⟩ | ⟨hle, jump, -, hpending⟩
  · simp [ReceiverKeyManager.adopt, hnone, hf, hle]
  · simp only [ReceiverKeyManager.adopt, hpending]
    unfold nextGeneration at hle
    cases hf : r.frontier with
    | none => simp
    | some f =>
      rw [hf, Option.elim_some] at hle
      simp only [Option.elim_some, Option.some.injEq]
      omega

theorem KeyWindow.unprotect (hr : KeyWindow c start k r) {out : Except RecvDrop ℕ × Bytes}
    (h : r.unprotect ops c buf = .ok (out, r')) : KeyWindow c start k r' := by
  have hk : 0 < k := hr.length_ring ▸ r.ring_pos
  have hkeys := hr.toKeysFrom.unprotect h
  rcases unprotect_cases h with ⟨d, stats, -, -, rfl⟩ |
    ⟨p, e, d, stream, stats, hplan, -, -, -, rfl⟩ | ⟨p, plain, stream, stats, hplan, -, -, rfl⟩
  · exact ⟨hkeys, hr.generation, hr.window, hr.recent, hr.loaded⟩
  · refine ⟨hkeys, hr.generation, hr.window, ?_, nofun⟩
    rintro h ⟨⟩
    rcases hr.plan_cases hplan with ⟨-, f, hf, -, hfk⟩ | ⟨hg, -⟩
    · exact (nextGeneration_of_frontier hf).trans_le hfk
    · exact hg.trans (Nat.le_add_right _ _)
  · obtain ⟨hgen, hring, hle⟩ := hr.adopt hk hplan
    refine ⟨hkeys, hgen, hring, ?_, nofun⟩
    rintro h ⟨⟩
    exact hle

theorem KeyWindow.of_reaches (hs : start.generation = 0) {r₀ : ReceiverKeyManager σ}
    {stream : Except SrtpError σ} {scheme : GenerationScheme} {seekCap : ℕ}
    (h₀ : new ops stream scheme start k seekCap = .ok r₀) {B : ReceiverKeyManager σ → Prop}
    (h : Reaches (ReceiverKeyManager.unprotect ops c) B r₀ r) : KeyWindow c start k r :=
  h.invariant (KeyWindow c start k) (keyWindow_new hs h₀)
    fun _ _ _ _ _ hr hstep _ => hr.unprotect hstep

theorem scheme_of_reaches {r₀ : ReceiverKeyManager σ} {stream : Except SrtpError σ}
    {scheme : GenerationScheme} {seekCap : ℕ}
    (h₀ : new ops stream scheme start k seekCap = .ok r₀) {B : ReceiverKeyManager σ → Prop}
    (h : Reaches (ReceiverKeyManager.unprotect ops c) B r₀ r) : r.scheme = scheme := by
  refine h.invariant (fun r => r.scheme = scheme) ?_ fun _ _ _ _ _ hs hstep _ =>
    (unprotect_scheme hstep).trans hs
  obtain ⟨s, hk, -, -, rfl⟩ := new_ok h₀
  rfl

theorem KeyWindow.classify_ok (hr : KeyWindow c start k r) (g : ℕ) :
    ∃ x, r.classify g = .ok x := by
  unfold classify
  split
  · dsimp only
    split <;> exact ⟨_, rfl⟩
  · rename_i f hf
    split
    · rename_i hg
      split
      · exact ⟨_, rfl⟩
      · rename_i hk
        have hslot : r.ring[g % r.ring.length]? = some (some (g, start.keyAt c g)) := by
          rw [hr.length_ring] at hk ⊢
          rw [hr.slot_iff, nextGeneration_of_frontier hf]
          exact ⟨by omega, by omega, rfl, rfl⟩
        rw [hslot]
        exact ⟨_, if_pos rfl⟩
    · dsimp only
      split <;> exact ⟨_, rfl⟩

theorem KeyWindow.fetchKey_ok (hr : KeyWindow c start k r) {g : ℕ} {placement : Placement}
    (h : r.classify g = .ok (.ok placement)) : ∃ y, r.fetchKey c g placement = .ok y := by
  cases placement with
  | inWindow ks => exact ⟨_, rfl⟩
  | ahead jump =>
    obtain ⟨-, hg, -⟩ := classify_ahead h
    exact ⟨_, hr.fetchKey_ahead (hr.generation.trans_le hg)⟩

theorem KeyWindow.plan_error (hr : KeyWindow c start k r) {p : Panic}
    (h : r.plan c buf = .error p) : p = .divisionByZero ∧ ¬ r.scheme.Valid := by
  unfold plan at h
  split at h
  · cases h
  split at h
  · rename_i q hmap
    cases h
    exact GenerationScheme.mapGeneration_error hmap
  · cases h
  rename_i g estIndex hmap
  obtain ⟨x, hx⟩ := hr.classify_ok g
  rw [hx] at h
  cases x with
  | error d => cases h
  | ok placement =>
    obtain ⟨y, hy⟩ := hr.fetchKey_ok hx
    simp only [hy] at h
    cases h

theorem KeyWindow.unprotect_error (hr : KeyWindow c start k r) {p : Panic}
    (h : r.unprotect ops c buf = .error p) :
    p = .divisionByZero ∨ ∃ e, p = .unexpectedSrtpError e := by
  rcases ReceiverKeyManager.unprotect_error h with h | ⟨q, e, stream, -, -, -, rfl⟩
  · exact .inl (hr.plan_error h).1
  · exact .inr ⟨e, rfl⟩

/-! ## The window in every reachable state -/

/-- The state holds a key or secret of generation `g`, or can derive one. -/
def Retains (r : ReceiverKeyManager σ) (g : ℕ) : Prop :=
  (∃ ks, some (g, ks) ∈ r.ring) ∨ r.installed = some g ∨ r.ratchet.generation ≤ g

theorem KeyWindow.recent_of_retains (hr : KeyWindow c start k r) {g : ℕ} (h : r.Retains g) :
    r.nextGeneration ≤ g + k := by
  rcases h with ⟨ks, hmem⟩ | hi | hg
  · obtain ⟨s, hs⟩ := List.mem_iff_getElem?.mp hmem
    exact (hr.slot_iff.mp hs).1
  · exact hr.recent g hi
  · rw [hr.generation] at hg
    exact hg.trans (Nat.le_add_right _ _)

end ReceiverKeyManager

def generationSecret (c : Crypto) (seed : ByteArr chainSecretLen) (g : ℕ) :
    ByteArr chainSecretLen :=
  (chainStep c)^[g] seed

def generationKey (c : Crypto) (seed : ByteArr chainSecretLen) (g : ℕ) : KeySalt :=
  expandKeySalt c (generationSecret c seed g)

namespace ReceiverKeyManager

variable {σ : Type*} {ops : SrtpOps σ} {r r₀ : ReceiverKeyManager σ} {k : ℕ}

structure HoldsWindow (ops : SrtpOps σ) (c : Crypto) (seed : ByteArr chainSecretLen) (k : ℕ)
    (r : ReceiverKeyManager σ) : Prop where
  length_ring : r.ring.length = k
  fresh : r.frontier = none → (∀ slot ∈ r.ring, slot = none) ∧ r.ratchet = ⟨seed, 0⟩
  derived : ∀ f, r.frontier = some f →
    r.ratchet = ⟨generationSecret c seed (f + 1), f + 1⟩ ∧
      ∀ s g ks, r.ring[s]? = some (some (g, ks)) ↔
        f + 1 ≤ g + k ∧ g ≤ f ∧ s = g % k ∧ ks = generationKey c seed g
  loaded : ∀ f, r.frontier = some f → ∃ h, r.installed = some h
  installed : ∀ h, r.installed = some h → r.session.keySalt = generationKey c seed h ∧
    ∀ f, r.frontier = some f → f + 1 ≤ h + k
  erased : ∀ f g, r.frontier = some f → r.Retains g → f + 1 ≤ g + k
  never_missing : ∀ buf g, r.unprotect ops c buf ≠ .error (.missingFromRing g)
  always_derived : ∀ buf, r.unprotect ops c buf ≠ .error .noDerivedKey

/-- The key window in every state that calls lead to, whatever the SRTP library answers:
`ops` and its stream states are arbitrary. -/
theorem holdsWindow_of_reaches (ops : SrtpOps σ) (c : Crypto) (stream : Except SrtpError σ)
    (scheme : GenerationScheme) (seed : ByteArr chainSecretLen) (seekCap : ℕ)
    (h₀ : new ops stream scheme ⟨seed, 0⟩ k seekCap = .ok r₀)
    (h : Reaches (ReceiverKeyManager.unprotect ops c) (fun _ => True) r₀ r) :
    HoldsWindow ops c seed k r := by
  have hr : KeyWindow c ⟨seed, 0⟩ k r := KeyWindow.of_reaches rfl h₀ h
  refine ⟨hr.length_ring, ?_, ?_, ?_, ?_, ?_, ?_, ?_⟩
  · intro hf
    have hn : r.nextGeneration = 0 := by rw [nextGeneration, hf]; rfl
    constructor
    · rw [hr.window, hn, window_zero]
      intro slot hslot
      exact (List.mem_replicate.mp hslot).2
    · rw [hr.ratchet, hr.generation, hn]
      rfl
  · intro f hf
    have hn := nextGeneration_of_frontier hf
    constructor
    · rw [hr.ratchet, hr.generation, hn]
      rfl
    · intro s g ks
      rw [hr.slot_iff, hn, Nat.lt_succ_iff]
      rfl
  · intro f hf
    by_contra hnone
    have := hr.loaded (Option.eq_none_iff_forall_ne_some.mpr (not_exists.mp hnone))
    rw [hf] at this
    cases this
  · intro h hi
    refine ⟨hr.installed h hi, ?_⟩
    intro f hf
    rw [← nextGeneration_of_frontier hf]
    exact hr.recent h hi
  · intro f g hf hg
    rw [← nextGeneration_of_frontier hf]
    exact hr.recent_of_retains hg
  · intro buf g h
    rcases hr.unprotect_error h with h | ⟨e, h⟩ <;> cases h
  · intro buf h
    rcases hr.unprotect_error h with h | ⟨e, h⟩ <;> cases h

def acceptAll : SrtpOps Unit where
  unprotect _ _ packet := (.ok packet, ())
  throwaway := ByteArr.replicate _ 0

theorem holdsWindow_after_jump :
    ∃ r, r.frontier = some 5 ∧ HoldsWindow acceptAll Crypto.toy (ByteArr.replicate _ 0) 2 r := by
  obtain ⟨r₀, h₀⟩ : ∃ r₀, new acceptAll (.ok ()) (.packet 0) ⟨ByteArr.replicate _ 0, 0⟩ 2 10 =
    .ok r₀ := ⟨_, rfl⟩
  obtain ⟨out, r, hr, hf⟩ := exists_of_returns
    (x := r₀.unprotect acceptAll Crypto.toy ([0x80, 96, 0, 5] ++ List.replicate 8 0))
    (q := fun _ r => r.frontier = some 5) (by cases h₀; decide +kernel)
  exact ⟨r, of_decide_eq_true hf, holdsWindow_of_reaches acceptAll Crypto.toy (.ok ()) (.packet 0) _
    10 h₀ (.next (.start trivial) hr trivial)⟩

end ReceiverKeyManager

end SafeCast
