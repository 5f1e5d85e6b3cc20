import Mathlib.Data.List.Basic
import Mathlib.Data.List.Range
import Mathlib.Data.Int.ModEq

/-! # Rings of numbered slots

A ring of `K` slots keeps numbered values, value `g` in slot `g % K`. Storing the
values of a family in order leaves the last `K` of them. A backlog cut to its last
`K` values leaves the same ring as the whole backlog.
-/

namespace SlotRing

variable {α : Type*} {K : ℕ}

def store (ring : List (Option (ℕ × α))) (p : ℕ × α) : List (Option (ℕ × α)) :=
  ring.set (p.1 % ring.length) (some p)

def storeAll (ring : List (Option (ℕ × α))) (ps : List (ℕ × α)) : List (Option (ℕ × α)) :=
  ps.foldl store ring

@[simp] theorem length_store (ring : List (Option (ℕ × α))) (p : ℕ × α) :
    (store ring p).length = ring.length := by simp [store]

@[simp] theorem length_storeAll (ring : List (Option (ℕ × α))) (ps : List (ℕ × α)) :
    (storeAll ring ps).length = ring.length := by
  induction ps generalizing ring with
  | nil => rfl
  | cons p ps ih => exact (ih (store ring p)).trans (length_store ring p)

theorem storeAll_concat (ring : List (Option (ℕ × α))) (ps : List (ℕ × α)) (p : ℕ × α) :
    storeAll ring (ps ++ [p]) = store (storeAll ring ps) p := by
  simp [storeAll]

theorem mem_storeAll {ring : List (Option (ℕ × α))} {ps : List (ℕ × α)} {p : ℕ × α}
    (h : some p ∈ storeAll ring ps) : some p ∈ ring ∨ p ∈ ps := by
  induction ps using List.reverseRecOn with
  | nil => exact .inl h
  | append_singleton ps q ih =>
    rw [storeAll_concat, store] at h
    rcases List.mem_or_eq_of_mem_set h with h | h
    · rcases ih h with h | h
      · exact .inl h
      · exact .inr (List.mem_append_left _ h)
    · cases h
      exact .inr (List.mem_append_right _ (List.mem_singleton_self p))

/-- The numbered values `a, …, a + m - 1` of a family. -/
def segment (v : ℕ → α) (a m : ℕ) : List (ℕ × α) :=
  (List.range' a m).map fun g => (g, v g)

@[simp] theorem length_segment (v : ℕ → α) (a m : ℕ) : (segment v a m).length = m := by
  simp [segment]

theorem segment_succ (v : ℕ → α) (a m : ℕ) :
    segment v a (m + 1) = segment v a m ++ [(a + m, v (a + m))] := by
  simp [segment, List.range'_concat]

theorem segment_cons (v : ℕ → α) (a m : ℕ) :
    segment v a (m + 1) = (a, v a) :: segment v (a + 1) m := by
  simp [segment, List.range'_succ]

theorem eq_of_mem_segment {v : ℕ → α} {a m g : ℕ} {x : α} (h : (g, x) ∈ segment v a m) :
    x = v g := by
  obtain ⟨i, -, hi⟩ := List.mem_map.mp h
  cases hi
  rfl

theorem drop_segment (v : ℕ → α) (a m j : ℕ) :
    (segment v a m).drop j = segment v (a + j) (m - j) := by
  simp [segment, ← List.map_drop, List.drop_range']

def window (K : ℕ) (v : ℕ → α) (n : ℕ) : List (Option (ℕ × α)) :=
  storeAll (List.replicate K none) (segment v 0 n)

@[simp] theorem length_window (v : ℕ → α) (n : ℕ) : (window K v n).length = K := by
  simp [window]

theorem window_zero (v : ℕ → α) : window K v 0 = List.replicate K none := rfl

theorem window_succ (v : ℕ → α) (n : ℕ) :
    window K v (n + 1) = store (window K v n) (n, v n) := by
  simp [window, segment_succ, storeAll_concat]

theorem storeAll_window (v : ℕ → α) (n m : ℕ) :
    storeAll (window K v n) (segment v n m) = window K v (n + m) := by
  induction m with
  | zero => rfl
  | succ m ih => rw [segment_succ, storeAll_concat, ih, ← Nat.add_assoc, window_succ]

theorem window_getElem? (v : ℕ → α) {n g : ℕ} (hg : g < n) (hK : n ≤ g + K) :
    (window K v n)[g % K]? = some (some (g, v g)) := by
  induction n with
  | zero => omega
  | succ n ih =>
    rw [window_succ, store, length_window]
    by_cases he : g = n
    · subst he
      rw [List.getElem?_set_self (by simpa using Nat.mod_lt g (by omega))]
    · have hne : n % K ≠ g % K := by
        intro h
        have hd : K ∣ n - g := (Nat.modEq_iff_dvd' (by omega)).mp h.symm
        have := Nat.le_of_dvd (by omega) hd
        omega
      rw [List.getElem?_set_ne hne]
      exact ih (by omega) (by omega)

theorem of_window_getElem? (v : ℕ → α) {n s g : ℕ} {x : α}
    (h : (window K v n)[s]? = some (some (g, x))) :
    g < n ∧ n ≤ g + K ∧ g % K = s ∧ x = v g := by
  induction n with
  | zero =>
    rw [window_zero, List.getElem?_replicate] at h
    split at h <;> simp at h
  | succ n ih =>
    rw [window_succ, store, length_window] at h
    by_cases hs : n % K = s
    · subst hs
      have hlt : n % K < (window K v n).length := by
        have := (List.getElem?_eq_some_iff.mp h).1
        simpa using this
      rw [List.getElem?_set_self hlt] at h
      simp only [Option.some.injEq, Prod.mk.injEq] at h
      obtain ⟨rfl, rfl⟩ := h
      have : 0 < K := by
        rw [length_window] at hlt
        omega
      exact ⟨by omega, by omega, rfl, rfl⟩
    · rw [List.getElem?_set_ne hs] at h
      obtain ⟨hg, hK, hm, hx⟩ := ih h
      refine ⟨by omega, ?_, hm, hx⟩
      by_contra hn
      have : n = g + K := by omega
      subst this
      exact hs (by rw [Nat.add_mod_right]; exact hm)

theorem storeAll_segment_getElem? (v : ℕ → α) {R R' : List (Option (ℕ × α))}
    (hR : R.length = K) (hR' : R'.length = K) (a m s : ℕ)
    (h : ∃ g, a ≤ g ∧ g < a + m ∧ g % K = s) :
    (storeAll R (segment v a m))[s]? = (storeAll R' (segment v a m))[s]? := by
  induction m with
  | zero => obtain ⟨g, h₁, h₂, -⟩ := h; omega
  | succ m ih =>
    rw [segment_succ, storeAll_concat, storeAll_concat, store, store, length_storeAll,
      length_storeAll, hR, hR']
    by_cases hs : (a + m) % K = s
    · subst hs
      simp only [List.getElem?_set, length_storeAll, hR, hR', if_true]
    · rw [List.getElem?_set_ne hs, List.getElem?_set_ne hs]
      obtain ⟨g, h₁, h₂, h₃⟩ := h
      refine ih ⟨g, h₁, ?_, h₃⟩
      by_contra hn
      exact hs (by rw [← h₃, show g = a + m by omega])

theorem storeAll_segment_full (v : ℕ → α) {R R' : List (Option (ℕ × α))}
    (hR : R.length = K) (hR' : R'.length = K) (a : ℕ) :
    storeAll R (segment v a K) = storeAll R' (segment v a K) := by
  apply List.ext_getElem?
  intro s
  by_cases hs : s < K
  · -- the slot is written by the value at offset `s - a` modulo `K`
    apply storeAll_segment_getElem? v hR hR'
    refine ⟨a + (s + K - a % K) % K, by omega, ?_, ?_⟩
    · have := Nat.mod_lt (s + K - a % K) (show 0 < K by omega)
      omega
    · have hlt := Nat.mod_lt a (show 0 < K by omega)
      have : (a + (s + K - a % K) % K) % K = (a % K + (s + K - a % K)) % K := by
        rw [Nat.add_mod_mod, ← Nat.mod_add_mod]
      rw [this, show a % K + (s + K - a % K) = s + K by omega, Nat.add_mod_right,
        Nat.mod_eq_of_lt hs]
  · rw [List.getElem?_eq_none (by simp; omega), List.getElem?_eq_none (by simp; omega)]

/-! ## A backlog cut to the ring's size -/

/-- Append to a queue of at most `K` values, dropping the oldest when it is full. -/
def pushBounded {β : Type*} (K : ℕ) (q : List β) (x : β) : List β :=
  (if q.length = K then q.tail else q) ++ [x]

theorem getLast?_foldl_pushBounded (v : ℕ → α) (a m : ℕ) (q : List (ℕ × α)) :
    ((segment v a (m + 1)).foldl (pushBounded K) q).getLast? = some (a + m, v (a + m)) := by
  simp [segment_succ, pushBounded]

theorem foldl_pushBounded {β : Type*} (hK : 0 < K) (l : List β) :
    l.foldl (pushBounded K) [] = l.drop (l.length - K) := by
  induction l using List.reverseRecOn with
  | nil => simp
  | append_singleton l x ih =>
    rw [List.foldl_append, ih, List.foldl_cons, List.foldl_nil, pushBounded, List.length_drop,
      List.length_append, List.length_singleton]
    by_cases h : K ≤ l.length
    · rw [if_pos (by omega), List.tail_drop, List.drop_append_of_le_length (by omega)]
      congr 2
      omega
    · rw [if_neg (by omega), List.drop_append_of_le_length (by omega)]
      congr 2
      omega

theorem mem_of_mem_foldl_pushBounded {β : Type*} (hK : 0 < K) {l : List β} {x : β}
    (h : x ∈ l.foldl (pushBounded K) []) : x ∈ l := by
  rw [foldl_pushBounded hK] at h
  exact List.mem_of_mem_drop h

/-- Storing only the last `K` values of a backlog leaves the same ring. -/
theorem storeAll_backlog (v : ℕ → α) (hK : 0 < K) (n m : ℕ) :
    storeAll (window K v n) ((segment v n m).foldl (pushBounded K) []) = window K v (n + m) := by
  rw [foldl_pushBounded hK, length_segment, drop_segment]
  by_cases h : m ≤ K
  · rw [show m - K = 0 by omega, Nat.add_zero, Nat.sub_zero, storeAll_window]
  · have hK' : m - (m - K) = K := by omega
    rw [hK', storeAll_segment_full v (length_window v n) (length_window v (n + (m - K))),
      storeAll_window]
    congr 1
    omega

end SlotRing
