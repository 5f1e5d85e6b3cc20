import SafeCast.Library.HashChain
import SafeCast.Library.Ledger
import SafeCast.Primitives

/-! # The TESLA key chain

The sender hashes the chain backwards from a private final key. The receiver trusts one
key, at first the anchor, and checks a disclosed key by hashing it down to that one.
-/

namespace SafeCast

open HashChain Runs

def teslaKeyLen : ℕ := 20

abbrev ChainKey := ByteArr teslaKeyLen

def fStep (c : Crypto) (key : ChainKey) : ChainKey :=
  (c.hmacSha256 key.val [0x00]).take teslaKeyLen (by decide)

theorem fStep_surjective : Function.Surjective fStep := by
  intro F
  let hmac : Bytes → Bytes → ByteArr 32 := fun key _ =>
    if h : key.length = teslaKeyLen then
      ⟨(F ⟨key, h⟩).val ++ List.replicate 12 0, by
        rw [List.length_append, (F ⟨key, h⟩).property]; rfl⟩
    else ByteArr.replicate _ 0
  refine ⟨{ Crypto.toy with hmacSha256 := hmac }, ?_⟩
  funext key
  apply Subtype.ext
  have hkey : hmac key.val [0x00] = ⟨(F key).val ++ List.replicate 12 0, _⟩ :=
    dif_pos key.property
  simp only [fStep, ByteArr.take, hkey]
  exact List.take_left' (F key).property

theorem fStep_toy (a : UInt8) (l : Bytes) (h : (a :: l).length = teslaKeyLen) :
    (fStep Crypto.toy ⟨a :: l, h⟩).val = (a + 1) :: l := by
  have hl : l.length = 19 := by simpa [teslaKeyLen] using h
  simp [fStep, Crypto.toy, ByteArr.take, teslaKeyLen, List.take_append, hl, List.take_of_length_le]

theorem fStep_toy_injective : (fStep Crypto.toy).Injective := by
  rintro ⟨x, hx⟩ ⟨y, hy⟩ h
  obtain ⟨a, l, rfl⟩ := List.exists_cons_of_length_pos (l := x) (by rw [hx]; decide)
  obtain ⟨b, m, rfl⟩ := List.exists_cons_of_length_pos (l := y) (by rw [hy]; decide)
  have hval := congrArg Subtype.val h
  simp only [fStep_toy] at hval
  apply Subtype.ext
  simpa using hval

/-- The MAC key derivation `F'`, with an output of `nF ≤ 32` bytes. -/
def macKey (c : Crypto) (key : ChainKey) (nF : ℕ) : Bytes :=
  (c.hmacSha256 key.val [0x01]).val.take nF

/-- The sender's chain: element `i` is the key of interval `i`. -/
structure TeslaChain where
  keys : List ChainKey

namespace TeslaChain

def fromFinalKey (c : Crypto) (kFinal : ChainKey) (nChain : ℕ) : TeslaChain :=
  ⟨build (fStep c) kFinal nChain⟩

def key (chain : TeslaChain) (i : ℕ) : Except Panic ChainKey :=
  match chain.keys[i]? with
  | some k => .ok k
  | none => .error .outOfRange

theorem key_fromFinalKey {c : Crypto} {kFinal : ChainKey} {nChain i : ℕ} (hi : i ≤ nChain) :
    (fromFinalKey c kFinal nChain).key i = .ok (element (fStep c) kFinal nChain i) := by
  unfold key fromFinalKey
  rw [build_getElem? hi]

end TeslaChain

inductive Disclosure where
  | new (keys : List (ℕ × ChainKey))
  | notNew
  | invalid
  | tooFarAhead
  | beyondChain
  deriving DecidableEq

/-- The receiver's side of the chain: the newest key it has proven genuine. -/
structure ChainVerifier where
  nChain : ℕ
  gMax : ℕ
  trustedIndex : ℕ
  trustedKey : ChainKey
  deriving DecidableEq

namespace ChainVerifier

def new (anchor : ChainKey) (nChain gMax : ℕ) : ChainVerifier := ⟨nChain, gMax, 0, anchor⟩

/-- Checks a candidate for key `index`; trust moves to it when it hashes down to the
trusted key. -/
def check (c : Crypto) (v : ChainVerifier) (candidate : ChainKey) (index : ℕ) :
    Disclosure × ChainVerifier :=
  if index ≤ v.trustedIndex then (.notNew, v)
  else if index > v.nChain then (.beyondChain, v)
  else
    let gap := index - v.trustedIndex
    if gap > v.gMax then (.tooFarAhead, v)
    else
      let walk := walkDown (fStep c) index v.trustedIndex gap candidate
      if walk.1 ≠ v.trustedKey then (.invalid, v)
      else (.new walk.2.reverse, { v with trustedIndex := index, trustedKey := candidate })

structure Trusts (c : Crypto) (kFinal : ChainKey) (v : ChainVerifier) : Prop where
  le : v.trustedIndex ≤ v.nChain
  key : v.trustedKey = element (fStep c) kFinal v.nChain v.trustedIndex

variable {c : Crypto} {v v' : ChainVerifier} {candidate kFinal : ChainKey} {index : ℕ}

theorem check_new_iff {keys : List (ℕ × ChainKey)} :
    v.check c candidate index = (.new keys, v') ↔
      v.trustedIndex < index ∧ index ≤ v.nChain ∧ index - v.trustedIndex ≤ v.gMax ∧
        (fStep c)^[index - v.trustedIndex] candidate = v.trustedKey ∧
        keys = (List.range' (v.trustedIndex + 1) (index - v.trustedIndex)).map
          (fun j => (j, element (fStep c) candidate index j)) ∧
        v' = { v with trustedIndex := index, trustedKey := candidate } := by
  unfold check
  dsimp only
  split_ifs with h₁ h₂ h₃ h₄
  · simp [h₁]
  · simp [h₂]
  · simp only [Prod.mk.injEq, reduceCtorEq, false_and, false_iff]
    rintro ⟨-, -, hgap, -⟩
    exact absurd hgap (not_le.mpr h₃)
  · rw [walkDown_fst] at h₄
    simp [h₄]
  · rw [not_not, walkDown_fst] at h₄
    rw [reverse_walkDown (by omega) (by omega)]
    simp only [Prod.mk.injEq, Disclosure.new.injEq, not_le.mp h₁, not_lt.mp h₂, not_lt.mp h₃, h₄,
      true_and]
    exact and_congr eq_comm eq_comm

theorem check_notNew_iff :
    v.check c candidate index = (.notNew, v') ↔ index ≤ v.trustedIndex ∧ v' = v := by
  unfold check
  dsimp only
  split_ifs with h₁ <;> simp [h₁, eq_comm]

theorem check_unchanged {disclosure : Disclosure}
    (h : v.check c candidate index = (disclosure, v')) (hne : ∀ keys, disclosure ≠ .new keys) :
    v' = v := by
  unfold check at h
  dsimp only at h
  split_ifs at h
  case neg =>
    obtain ⟨rfl, -⟩ := Prod.mk.inj h
    exact absurd rfl (hne _)
  all_goals exact (Prod.mk.inj h).2.symm

theorem Trusts.candidate_eq (hf : (fStep c).Injective) (hv : Trusts c kFinal v)
    {keys : List (ℕ × ChainKey)} (h : v.check c candidate index = (.new keys, v')) :
    candidate = element (fStep c) kFinal v.nChain index := by
  obtain ⟨hlt, hle, -, hwalk, -⟩ := check_new_iff.mp h
  rw [hv.key] at hwalk
  exact eq_element hf hle hlt.le hwalk

theorem Trusts.check_new {keys : List (ℕ × ChainKey)}
    (hcand : candidate = element (fStep c) kFinal v.nChain index)
    (h : v.check c candidate index = (.new keys, v')) :
    v'.Trusts c kFinal ∧ ∀ k ∈ keys, k.2 = element (fStep c) kFinal v.nChain k.1 := by
  obtain ⟨hlt, hle, -, -, rfl, rfl⟩ := check_new_iff.mp h
  refine ⟨⟨hle, hcand⟩, ?_⟩
  intro k hk
  obtain ⟨j, hj, rfl⟩ := List.mem_map.mp hk
  have hj := List.mem_range'_1.mp hj
  dsimp only
  rw [hcand, element_element hle (by omega)]

theorem Trusts.exists_check_new (hv : Trusts c kFinal v) (hlt : v.trustedIndex < index)
    (hle : index ≤ v.nChain) (hcap : index ≤ v.trustedIndex + v.gMax) :
    ∃ keys v', v.check c (element (fStep c) kFinal v.nChain index) index = (.new keys, v') := by
  have hwalk : (fStep c)^[index - v.trustedIndex] (element (fStep c) kFinal v.nChain index) =
      v.trustedKey := by
    rw [iterate_element hle hlt.le, hv.key]
  exact ⟨_, _, check_new_iff.mpr ⟨hlt, hle, by omega, hwalk, rfl, rfl⟩⟩

/-! ## Runs of checks -/

def checking (c : Crypto) (v : ChainVerifier) (call : ChainKey × ℕ) :
    Except Panic (Disclosure × ChainVerifier) :=
  .ok (v.check c call.1 call.2)

def newKeys : Disclosure → List (ℕ × ChainKey)
  | .new keys => keys
  | _ => []

structure Checked (F : ChainKey → ChainKey) (nChain gMax : ℕ)
    (t : Transition ChainVerifier (ChainKey × ℕ) Disclosure) : Prop where
  mono : t.before.trustedIndex ≤ t.after.trustedIndex
  new_iff : (∃ keys, t.output = .new keys) ↔
    t.before.trustedIndex < t.input.2 ∧ t.input.2 ≤ nChain ∧
      t.input.2 - t.before.trustedIndex ≤ gMax ∧
      F^[t.input.2 - t.before.trustedIndex] t.input.1 = t.before.trustedKey
  kept : (∀ keys, t.output ≠ .new keys) → t.after = t.before

/-- The verifier after some checks: it trusts a key above the anchor, and has handed out the
chain between the two, each key once and in order. -/
structure History (F : ChainKey → ChainKey) (anchor : ChainKey) (nChain gMax : ℕ)
    (ts : List (Transition ChainVerifier (ChainKey × ℕ) Disclosure)) (v : ChainVerifier) :
    Prop where
  nChain_eq : v.nChain = nChain
  gMax_eq : v.gMax = gMax
  le : v.trustedIndex ≤ nChain
  anchored : F^[v.trustedIndex] v.trustedKey = anchor
  checked : ∀ t ∈ ts, Checked F nChain gMax t
  handed : ts.flatMap (fun t => newKeys t.output) =
    (List.range' 1 v.trustedIndex).map fun j => (j, element F v.trustedKey v.trustedIndex j)

theorem checked_check {disclosure : Disclosure}
    (h : v.check c candidate index = (disclosure, v')) :
    Checked (fStep c) v.nChain v.gMax ⟨v, (candidate, index), disclosure, v'⟩ := by
  have hiff : (∃ keys, disclosure = .new keys) ↔
      v.trustedIndex < index ∧ index ≤ v.nChain ∧ index - v.trustedIndex ≤ v.gMax ∧
        (fStep c)^[index - v.trustedIndex] candidate = v.trustedKey := by
    constructor
    · rintro ⟨keys, rfl⟩
      obtain ⟨hlt, hle, hgap, hwalk, -⟩ := check_new_iff.mp h
      exact ⟨hlt, hle, hgap, hwalk⟩
    · rintro ⟨hlt, hle, hgap, hwalk⟩
      have hnew := check_new_iff.mpr ⟨hlt, hle, hgap, hwalk, rfl, rfl⟩
      exact ⟨_, (Prod.mk.inj (h.symm.trans hnew)).1⟩
  have hkept : (∀ keys, disclosure ≠ .new keys) → v' = v := check_unchanged h
  refine ⟨?_, hiff, hkept⟩
  by_cases hnew : ∃ keys, disclosure = .new keys
  · obtain ⟨keys, rfl⟩ := hnew
    obtain ⟨hlt, -, -, -, -, rfl⟩ := check_new_iff.mp h
    exact hlt.le
  · rw [hkept fun keys heq => hnew ⟨keys, heq⟩]

theorem History.step {F : ChainKey → ChainKey} {anchor : ChainKey} {nChain gMax : ℕ}
    {ts : List (Transition ChainVerifier (ChainKey × ℕ) Disclosure)} {disclosure : Disclosure}
    (hF : fStep c = F) (hv : History F anchor nChain gMax ts v)
    (h : v.check c candidate index = (disclosure, v')) :
    History F anchor nChain gMax (ts ++ [⟨v, (candidate, index), disclosure, v'⟩]) v' := by
  subst hF
  have hchecked := checked_check h
  rw [hv.nChain_eq, hv.gMax_eq] at hchecked
  have hall : ∀ t ∈ ts ++ [⟨v, (candidate, index), disclosure, v'⟩],
      Checked (fStep c) nChain gMax t := by
    simpa [or_imp, forall_and, hchecked] using hv.checked
  by_cases hnew : ∃ keys, disclosure = .new keys
  · obtain ⟨keys, rfl⟩ := hnew
    obtain ⟨hlt, hle, -, hwalk, rfl, rfl⟩ := check_new_iff.mp h
    refine ⟨hv.nChain_eq, hv.gMax_eq, hle.trans_eq hv.nChain_eq, ?_, hall, ?_⟩
    · dsimp only
      rw [← hv.anchored, ← hwalk, ← Function.iterate_add_apply, Nat.add_sub_cancel' hlt.le]
    · -- below the trusted key the chain is the same from either end
      have hbelow : ∀ j ≤ v.trustedIndex,
          element (fStep c) v.trustedKey v.trustedIndex j =
            element (fStep c) candidate index j := by
        intro j hj
        rw [← hwalk]
        exact element_element hlt.le hj
      rw [List.flatMap_append, hv.handed, List.flatMap_singleton]
      have hsplit : List.range' 1 index = List.range' 1 v.trustedIndex ++
          List.range' (v.trustedIndex + 1) (index - v.trustedIndex) := by
        rw [Nat.add_comm, List.range'_append_1, Nat.add_sub_cancel' hlt.le]
      dsimp only [newKeys]
      rw [hsplit, List.map_append]
      congr 1
      apply List.map_congr_left
      intro j hj
      rw [hbelow j (by have := List.mem_range'_1.mp hj; omega)]
  · have hsame : v' = v := hchecked.kept fun keys heq => hnew ⟨keys, heq⟩
    subst hsame
    refine ⟨hv.nChain_eq, hv.gMax_eq, hv.le, hv.anchored, hall, ?_⟩
    rw [List.flatMap_append, hv.handed, List.flatMap_singleton]
    cases disclosure with
    | new keys => exact absurd ⟨keys, rfl⟩ hnew
    | _ => exact List.append_nil _

theorem history_new (F : ChainKey → ChainKey) (anchor : ChainKey) (nChain gMax : ℕ) :
    History F anchor nChain gMax [] (new anchor nChain gMax) :=
  ⟨rfl, rfl, Nat.zero_le _, rfl, by simp, rfl⟩

/-- Runs of checks, for every step `F`: trust only moves up the chain, and the keys handed out
over the whole run are a chain of `F` from the anchor on, one key for each index. With `F`
injective and the anchor that of a sender's chain, they are the keys of that chain. -/
theorem history_of_run (F : ChainKey → ChainKey) (anchor : ChainKey) (nChain gMax : ℕ) :
    (∃ c, fStep c = F) ∧ ∀ c, fStep c = F → ∀ inputs : List (ChainKey × ℕ), ∃ outs v,
      run (checking c) (new anchor nChain gMax) inputs = .ok (outs, v) ∧
        v.trustedIndex ≤ nChain ∧ F^[v.trustedIndex] v.trustedKey = anchor ∧
        (∀ t ∈ calls (checking c) (new anchor nChain gMax) inputs, Checked F nChain gMax t) ∧
        ∃ k : ℕ → ChainKey,
          outs.flatMap newKeys = (List.range' 1 v.trustedIndex).map (fun j => (j, k j)) ∧
          k 0 = anchor ∧ (∀ j < v.trustedIndex, F (k (j + 1)) = k j) ∧
          ∀ kFinal, F.Injective → anchor = element F kFinal nChain 0 →
            ∀ j ≤ v.trustedIndex, k j = element F kFinal nChain j := by
  refine ⟨fStep_surjective F, ?_⟩
  intro c hF inputs
  obtain ⟨outs, v, hrun⟩ : ∃ outs v,
      run (checking c) (new anchor nChain gMax) inputs = .ok (outs, v) :=
    exists_run_iff.mpr fun pre i _ os v _ => ⟨_, _, rfl⟩
  have hv : History F anchor nChain gMax
      (calls (checking c) (new anchor nChain gMax) inputs) v := by
    apply run_ledger _ (history_new F anchor nChain gMax) _ hrun
    intro ts v i out v' hv h
    exact hv.step hF (Except.ok.inj h)
  refine ⟨outs, v, hrun, hv.le, hv.anchored, hv.checked, element F v.trustedKey v.trustedIndex, ?_,
    hv.anchored, fun j hj => step_element hj, ?_⟩
  · rw [← hv.handed, ← map_output_calls hrun, List.flatMap_map]
  · intro kFinal hinj hanchor j hj
    -- the trusted key hashes down to the anchor, so it is an element of the sender's chain
    have htrusted : v.trustedKey = element F kFinal nChain v.trustedIndex :=
      eq_element hinj hv.le (Nat.zero_le _) (hv.anchored.trans hanchor)
    rw [htrusted]
    exact element_element hv.le hj

theorem history_after_gap :
    ∃ outs v, run (checking Crypto.toy)
        (new (element (fStep Crypto.toy) (ByteArr.replicate _ 0) 5 0) 5 8)
        [(element (fStep Crypto.toy) (ByteArr.replicate _ 0) 5 2, 2), (ByteArr.replicate _ 0, 9),
          (ByteArr.replicate _ 0, 5)] = .ok (outs, v) ∧
      v.trustedIndex = 5 ∧ outs.flatMap newKeys = (List.range' 1 5).map fun j =>
        (j, element (fStep Crypto.toy) (ByteArr.replicate _ 0) 5 j) := by
  obtain ⟨outs, v, hrun, -, -, -, k, hkeys, -, -, hk⟩ := (history_of_run (fStep Crypto.toy)
    (element (fStep Crypto.toy) (ByteArr.replicate _ 0) 5 0) 5 8).2 Crypto.toy rfl
    [(element (fStep Crypto.toy) (ByteArr.replicate _ 0) 5 2, 2), (ByteArr.replicate _ 0, 9),
      (ByteArr.replicate _ 0, 5)]
  obtain ⟨_, _, hrun', htrusted⟩ := exists_of_returns
    (x := run (checking Crypto.toy)
      (new (element (fStep Crypto.toy) (ByteArr.replicate _ 0) 5 0) 5 8)
      [(element (fStep Crypto.toy) (ByteArr.replicate _ 0) 5 2, 2), (ByteArr.replicate _ 0, 9),
        (ByteArr.replicate _ 0, 5)])
    (q := fun _ v => v.trustedIndex = 5) (by decide +kernel)
  cases hrun.symm.trans hrun'
  have hfive : v.trustedIndex = 5 := of_decide_eq_true htrusted
  refine ⟨outs, v, hrun, hfive, ?_⟩
  rw [hkeys, hfive]
  apply List.map_congr_left
  intro j hj
  have hle : j ≤ v.trustedIndex := by
    have := List.mem_range'_1.mp hj
    omega
  rw [hk (ByteArr.replicate _ 0) fStep_toy_injective rfl j hle]

end ChainVerifier

end SafeCast
