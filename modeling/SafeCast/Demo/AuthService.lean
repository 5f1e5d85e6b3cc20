import Mathlib.Data.List.AList
import SafeCast.Keying.Mls
import SafeCast.Library.Service

/-! # The authentication service

The service binds identities to signature keys. Anyone may register, so what a key means
rests on who comes first. A text is a list of bytes in UTF-8.
-/

namespace SafeCast

open Service

/-- `str::is_char_boundary`: no character of the text goes on across the index. -/
def isCharBoundary (text : Bytes) (i : ℕ) : Bool :=
  i == 0 || i == text.length || (decide (i < text.length) && text.getD i 0 &&& 0xC0 != 0x80)

/-- Whether the first 16 bytes of the key can be cut off for the log. -/
def loggable (publicKey : Bytes) : Bool := isCharBoundary publicKey (min 16 publicKey.length)

/-- The registry behind its lock. A handler that aborts with the lock held poisons it. -/
structure AsData where
  credentials : AList fun _ : Bytes => Bytes
  poisoned : Bool

inductive AsRequest where
  | register (identity publicKey : Bytes)
  | lookup (identity : Bytes)
  deriving DecidableEq, Repr

def AsRequest.identity : AsRequest → Bytes
  | .register identity _ => identity
  | .lookup identity => identity

inductive AsResponse where
  | ok
  | conflict
  | found (identity publicKey : Bytes)
  | notFound
  /-- The handler has aborted. -/
  | aborted
  deriving DecidableEq, Repr

namespace AsData

def start : AsData := ⟨∅, false⟩

def register (s : AsData) (identity publicKey : Bytes) : AsResponse × AsData :=
  if s.poisoned then (.aborted, s)
  else if identity ∈ s.credentials then (.conflict, s)
  else if loggable publicKey then
    (.ok, { s with credentials := s.credentials.insert identity publicKey })
  else (.aborted, { s with poisoned := true })

def lookup (s : AsData) (identity : Bytes) : AsResponse :=
  if s.poisoned then .aborted
  else
    match s.credentials.lookup identity with
    | some publicKey => .found identity publicKey
    | none => .notFound

def handle (s : AsData) : AsRequest → AsResponse × AsData
  | .register identity publicKey => s.register identity publicKey
  | .lookup identity => (s.lookup identity, s)

end AsData

/-- The key in the first registration of an identity, successful or not. -/
def firstKey (identity : Bytes) (requests : List AsRequest) : Option Bytes :=
  requests.findSome? fun
    | .register id publicKey => if id = identity then some publicKey else none
    | .lookup _ => none

def AllLoggable (requests : List AsRequest) : Prop :=
  ∀ identity publicKey, firstKey identity requests = some publicKey → loggable publicKey = true

theorem mem_of_firstKey {identity publicKey : Bytes} {requests : List AsRequest}
    (h : firstKey identity requests = some publicKey) :
    .register identity publicKey ∈ requests := by
  obtain ⟨r, hr, hkey⟩ := List.exists_of_findSome?_eq_some h
  cases r with
  | register id key =>
    dsimp only at hkey
    split_ifs at hkey with hid
    cases hkey
    exact hid ▸ hr
  | lookup _ => cases hkey

theorem allLoggable_iff {requests : List AsRequest} : AllLoggable requests ↔
    ∀ r ∈ requests, ∀ key ∈ firstKey r.identity requests, loggable key = true := by
  constructor
  · intro h r _ key hkey
    exact h r.identity key hkey
  · intro h identity publicKey hkey
    exact h _ (mem_of_firstKey hkey) publicKey hkey

instance (requests : List AsRequest) : Decidable (AllLoggable requests) :=
  decidable_of_iff _ allLoggable_iff.symm

theorem firstKey_append (identity : Bytes) (l m : List AsRequest) :
    firstKey identity (l ++ m) = (firstKey identity l).or (firstKey identity m) :=
  List.findSome?_append

theorem firstKey_register (identity id publicKey : Bytes) :
    firstKey identity [.register id publicKey] =
      if id = identity then some publicKey else none := by
  simp only [firstKey, List.findSome?_cons, List.findSome?_nil]
  split_ifs <;> rfl

theorem firstKey_lookup (identity id : Bytes) : firstKey identity [.lookup id] = none := rfl

theorem firstKey_concat_register (requests : List AsRequest) (identity publicKey id : Bytes) :
    firstKey id (requests ++ [.register identity publicKey]) =
      if id = identity ∧ firstKey identity requests = none then some publicKey
      else firstKey id requests := by
  rw [firstKey_append, firstKey_register]
  by_cases hid : id = identity
  · subst hid
    cases firstKey id requests <;> simp
  · rw [if_neg (Ne.symm hid), if_neg (fun h => hid h.1), Option.or_none]

theorem allLoggable_concat_register {requests : List AsRequest} {identity publicKey : Bytes} :
    AllLoggable (requests ++ [.register identity publicKey]) ↔ AllLoggable requests ∧
      (firstKey identity requests = none → loggable publicKey = true) := by
  unfold AllLoggable
  simp only [firstKey_concat_register]
  constructor
  · intro h
    refine ⟨?_, ?_⟩
    · intro id key hkey
      refine h id key ?_
      rw [if_neg, hkey]
      rintro ⟨rfl, hnone⟩
      rw [hnone] at hkey
      cases hkey
    · intro hnone
      exact h identity publicKey (if_pos ⟨rfl, hnone⟩)
  · rintro ⟨hall, hnew⟩ id key hkey
    split_ifs at hkey with hfirst
    · cases hkey
      exact hnew hfirst.2
    · exact hall id key hkey

structure AsData.Reflects (requests : List AsRequest) (s : AsData) : Prop where
  poisoned : s.poisoned = false ↔ AllLoggable requests
  lookup : s.poisoned = false →
    ∀ identity, s.credentials.lookup identity = firstKey identity requests

namespace AsData

variable {requests : List AsRequest} {s : AsData}

theorem reflects_start : start.Reflects [] :=
  ⟨iff_of_true rfl nofun, fun _ _ => rfl⟩

theorem Reflects.register (h : s.Reflects requests) (identity publicKey : Bytes) :
    (s.register identity publicKey).2.Reflects (requests ++ [.register identity publicKey]) := by
  unfold AsData.register
  cases hpoisoned : s.poisoned with
  | true =>
    rw [if_pos rfl]
    refine ⟨?_, fun hs => ?_⟩
    · rw [allLoggable_concat_register, ← h.poisoned]
      simp [hpoisoned]
    · rw [hpoisoned] at hs
      cases hs
  | false =>
    have hlookup := h.lookup hpoisoned
    have hall := h.poisoned.mp hpoisoned
    have hnew : firstKey identity requests = none ↔ identity ∉ s.credentials := by
      rw [← hlookup, AList.lookup_eq_none]
    rw [if_neg (by simp)]
    split_ifs with hknown hlog
    · refine ⟨?_, fun _ id => ?_⟩
      · rw [allLoggable_concat_register, hnew]
        exact iff_of_true hpoisoned ⟨hall, fun hn => absurd hknown hn⟩
      · rw [hlookup, firstKey_concat_register, if_neg fun hfirst => hnew.mp hfirst.2 hknown]
    · refine ⟨?_, fun _ id => ?_⟩
      · rw [allLoggable_concat_register]
        exact iff_of_true rfl ⟨hall, fun _ => hlog⟩
      · rw [firstKey_concat_register]
        by_cases hid : id = identity
        · subst hid
          rw [AList.lookup_insert, if_pos ⟨rfl, hnew.mpr hknown⟩]
        · rw [AList.lookup_insert_ne hid, if_neg fun hfirst => hid hfirst.1, hlookup]
    · -- the log line cuts a character, and the handler aborts with the lock held
      refine ⟨?_, nofun⟩
      rw [allLoggable_concat_register]
      exact iff_of_false (by simp) fun hlogs => hlog (hlogs.2 (hnew.mpr hknown))

theorem Reflects.handle (h : s.Reflects requests) (r : AsRequest) :
    (s.handle r).2.Reflects (requests ++ [r]) := by
  cases r with
  | register identity publicKey => exact h.register identity publicKey
  | lookup identity =>
    have hsame : ∀ id, firstKey id (requests ++ [.lookup identity]) = firstKey id requests := by
      intro id
      rw [firstKey_append, firstKey_lookup, Option.or_none]
    refine ⟨?_, ?_⟩
    · unfold AllLoggable
      simp only [hsame]
      exact h.poisoned
    · intro hs id
      rw [hsame]
      exact h.lookup hs id

theorem reflects_after (requests : List AsRequest) :
    (after AsData.handle start requests).Reflects requests := by
  induction requests using List.reverseRecOn with
  | nil => exact reflects_start
  | append_singleton requests r ih =>
    rw [after_concat]
    exact ih.handle r

theorem lookup_after (requests : List AsRequest) (identity : Bytes) :
    (after handle start requests).lookup identity =
      if AllLoggable requests then
        (firstKey identity requests).elim .notFound (.found identity)
      else .aborted := by
  have h := reflects_after requests
  unfold lookup
  split_ifs with hpoisoned hlogs hlogs
  · exact absurd (h.poisoned.mpr hlogs) (by simp [hpoisoned])
  · rfl
  · rw [h.lookup (h.poisoned.mpr hlogs)]
    cases firstKey identity requests <;> rfl
  · exact absurd (h.poisoned.mp (Bool.eq_false_iff.mpr hpoisoned)) hlogs

theorem register_after (requests : List AsRequest) (identity publicKey : Bytes) :
    ((after handle start requests).register identity publicKey).1 =
      if ¬ AllLoggable requests then .aborted
      else if (firstKey identity requests).isSome then .conflict
      else if loggable publicKey then .ok
      else .aborted := by
  have h := reflects_after requests
  unfold register
  by_cases hlogs : AllLoggable requests
  · have hs := h.poisoned.mpr hlogs
    have hknown : identity ∈ (after handle start requests).credentials ↔
        (firstKey identity requests).isSome = true := by
      rw [← AList.lookup_isSome, h.lookup hs]
    rw [if_neg (by simp [hs]), if_neg (not_not.mpr hlogs)]
    simp only [hknown]
    split_ifs <;> rfl
  · have hs : (after handle start requests).poisoned = true :=
      Bool.eq_true_of_not_eq_false fun hs => hlogs (h.poisoned.mp hs)
    rw [if_pos hs, if_pos hlogs]

end AsData

/-- The first registration of an identity binds it: whatever requests came in, the service
answers with the key that was first registered and refuses every later one. It stops for good
once a first registration carries a key whose 16th byte is inside a character. -/
theorem first_registration_binds (requests : List AsRequest) (identity publicKey : Bytes) :
    ((after AsData.handle AsData.start requests).handle (.lookup identity)).1 =
        (if AllLoggable requests then
          (firstKey identity requests).elim .notFound (.found identity)
        else .aborted) ∧
      ((after AsData.handle AsData.start requests).handle (.register identity publicKey)).1 =
        if ¬ AllLoggable requests then .aborted
        else if (firstKey identity requests).isSome then .conflict
        else if loggable publicKey then .ok
        else .aborted :=
  ⟨AsData.lookup_after requests identity, AsData.register_after requests identity publicKey⟩

/-! ## Verification of a group -/

section Verification

variable {web : Web} {asUrl : Bytes} {requests : List AsRequest} {m : Member}

end Verification

end SafeCast
