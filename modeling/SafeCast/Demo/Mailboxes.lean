import Mathlib.Data.List.Perm.Basic
import Mathlib.Data.List.TakeWhile
import SafeCast.Demo.DeliveryService

/-! # What the delivery service owes to a client

Each client has a stack of key packages, a set of reservations and two queues. The requests
of all clients together work on them; here is what every run does to the account of one client.
-/

namespace SafeCast

open Service

abbrev DsExchange := Exchange DsData DsRequest DsResponse

namespace DsData

/-! ## The account of a client -/

def ofClient {α : Type*} (s : DsData) (id : Bytes) (f : ClientInfo → List α) : List α :=
  (s.clients.lookup id).elim [] f

def brought (e : DsExchange) : Option (Bytes × List (Bytes × KeyPackage)) :=
  match e.request, e.response with
  | .registerClient (.parsed (first :: rest)) _, .token _ =>
    some (first.2.identity, first :: rest)
  | .publishKeyPackages (some id) (.parsed (_, kps)), .ok => some (id, kps)
  | _, _ => none

def provided (id : Bytes) (e : DsExchange) : List (Bytes × KeyPackage) :=
  (brought e).elim [] fun p => if p.1 = id then p.2 else []

def handedOut (id : Bytes) (e : DsExchange) : List KeyPackage :=
  match e.request, e.response with
  | .consumeKeyPackage (some i), .keyPackage kp => if i = id then [kp] else []
  | _, _ => []

/-- The group messages that are sent to the client: a recipient gets one copy for each time it
is listed, up to the first recipient that is not known. -/
def queuedFor (id : Bytes) (e : DsExchange) : List MlsMessage :=
  match e.request with
  | .msgSend (.parsed (msg, recipients)) =>
    if e.response = .ok ∨ e.response = .notFound then
      List.replicate ((recipients.takeWhile (· ∈ e.before.clients)).count id) msg
    else []
  | _ => []

def fetched (id : Bytes) (e : DsExchange) : List MlsMessage :=
  match e.request, e.response with
  | .msgRecv (some i) _, .messages out => if i = id then out else []
  | _, _ => []

/-- The messages that the client should have got, had the answer been written. -/
def lost (id : Bytes) (e : DsExchange) : List MlsMessage :=
  match e.request with
  | .msgRecv (some i) _ =>
    if i = id ∧ e.before.poisoned = false ∧
        (e.response = .internalServerError ∨ e.response = .aborted) then
      e.before.ofClient id fun c => c.welcomeQueue ++ c.msgs
    else []
  | _ => []

def taken (id : Bytes) (e : DsExchange) : List MlsMessage := fetched id e ++ lost id e

inductive ClientStep : Option ClientInfo → Option ClientInfo →
    (provided : List (Bytes × KeyPackage)) → (handedOut : List KeyPackage) →
      (queued taken : List MlsMessage) → Prop where
  | idle (c : Option ClientInfo) : ClientStep c c [] [] [] []
  | register (token : Bytes) (first : Bytes × KeyPackage) (rest : List (Bytes × KeyPackage)) :
      ClientStep none (some (.new token first rest)) (first :: rest) [] [] []
  | publish (c : ClientInfo) (kps : List (Bytes × KeyPackage)) :
      ClientStep (some c) (some { c with keyPackages := c.keyPackages ++ kps }) kps [] [] []
  | consume {c : ClientInfo} {rest : List (Bytes × KeyPackage)} {hash : Bytes} {kp : KeyPackage}
      (hrest : rest ≠ []) (hkps : c.keyPackages = rest ++ [(hash, kp)]) :
      ClientStep (some c) (some { c with
        keyPackages := rest, reservedKeyPkgHash := insert hash c.reservedKeyPkgHash }) [] [kp] [] []
  | welcome {c : ClientInfo} {msg : MlsMessage} {reserved : Finset Bytes} {k : ℕ}
      (hmsg : msg.isProtocol = false) (hsubset : reserved ⊆ c.reservedKeyPkgHash)
      (hcard : reserved.card + k = c.reservedKeyPkgHash.card) :
      ClientStep (some c) (some { c with
        reservedKeyPkgHash := reserved
        welcomeQueue := c.welcomeQueue ++ List.replicate k msg }) [] [] [] []
  | queue (c : ClientInfo) {msg : MlsMessage} (hmsg : msg.isProtocol = true) (k : ℕ) :
      ClientStep (some c) (some { c with msgs := c.msgs ++ List.replicate k msg }) [] []
        (List.replicate k msg) []
  | fetch (c : ClientInfo) :
      ClientStep (some c) (some { c with msgs := [], welcomeQueue := [] }) [] [] []
        (c.welcomeQueue ++ c.msgs)

theorem lookup_pushAll (msg : MlsMessage) (clients : Clients) (recipients : List Bytes)
    (id : Bytes) :
    (pushAll msg clients recipients).2.lookup id = (clients.lookup id).map fun c =>
      { c with msgs := c.msgs ++
          List.replicate ((recipients.takeWhile (· ∈ clients)).count id) msg } := by
  induction recipients generalizing clients with
  | nil => simp [pushAll]
  | cons recipient recipients ih =>
    unfold pushAll
    cases hlookup : clients.lookup recipient with
    | none =>
      have hunknown := AList.lookup_eq_none.mp hlookup
      simp [hunknown]
    | some c =>
      have hknown : recipient ∈ clients := AList.lookup_isSome.mp (by simp [hlookup])
      have hkeys : ∀ a, a ∈ clients.insert recipient { c with msgs := c.msgs ++ [msg] } ↔
          a ∈ clients := by
        intro a
        rw [AList.mem_insert]
        constructor
        · rintro (rfl | ha)
          · exact hknown
          · exact ha
        · exact Or.inr
      dsimp only
      rw [ih, List.takeWhile_cons_of_pos (by simpa using hknown)]
      simp only [hkeys]
      by_cases hid : id = recipient
      · subst hid
        simp [hlookup, List.replicate_succ]
      · rw [AList.lookup_insert_ne hid, List.count_cons_of_ne (Ne.symm hid)]

theorem holder_eq_some {clients : Clients} {order : List Bytes} {hash id : Bytes} {c : ClientInfo}
    (h : holder clients order hash = some (id, c)) :
    clients.lookup id = some c ∧ hash ∈ c.reservedKeyPkgHash := by
  obtain ⟨i, -, hi⟩ := List.exists_of_findSome?_eq_some h
  cases hlookup : clients.lookup i with
  | none =>
    rw [hlookup] at hi
    cases hi
  | some c' =>
    rw [hlookup] at hi
    dsimp only at hi
    split_ifs at hi with hmem
    cases hi
    exact ⟨hlookup, hmem⟩

theorem lookup_deliver (msg : MlsMessage) (order : List Bytes) (clients : Clients)
    (secrets : List Bytes) (id : Bytes) :
    (clients.lookup id = none → (deliver msg order clients secrets).2.lookup id = none) ∧
      ∀ c, clients.lookup id = some c → ∃ reserved ⊆ c.reservedKeyPkgHash, ∃ k,
        reserved.card + k = c.reservedKeyPkgHash.card ∧
          (deliver msg order clients secrets).2.lookup id = some { c with
            reservedKeyPkgHash := reserved
            welcomeQueue := c.welcomeQueue ++ List.replicate k msg } := by
  induction secrets generalizing clients with
  | nil =>
    refine ⟨fun h => h, fun c hc => ⟨c.reservedKeyPkgHash, subset_rfl, 0, rfl, ?_⟩⟩
    simpa [deliver] using hc
  | cons hash secrets ih =>
    unfold deliver
    cases hholder : holder clients order hash with
    | none => exact ih clients
    | some p =>
      obtain ⟨i, c⟩ := p
      obtain ⟨hlookup, hmem⟩ := holder_eq_some hholder
      dsimp only
      have hcard := Finset.card_erase_add_one hmem
      obtain ⟨hnone, hsome⟩ := ih (clients.insert i { c with
        reservedKeyPkgHash := c.reservedKeyPkgHash.erase hash
        welcomeQueue := c.welcomeQueue ++ [msg] })
      by_cases hid : id = i
      · subst hid
        refine ⟨fun h => ?_, fun c' hc' => ?_⟩
        · rw [hlookup] at h
          cases h
        · obtain rfl := Option.some.inj (hlookup.symm.trans hc')
          obtain ⟨reserved, hsubset, k, hk, hafter⟩ := hsome _ (AList.lookup_insert _)
          dsimp only at hk
          refine ⟨reserved, hsubset.trans (Finset.erase_subset _ _), k + 1, by omega, ?_⟩
          rw [hafter, List.append_assoc, List.replicate_succ, List.singleton_append]
      · rw [AList.lookup_insert_ne hid] at hnone hsome
        exact ⟨hnone, hsome⟩

variable {write : DsResponse → Writing} {s s' : DsData} {r : DsRequest} {o : DsResponse}
  {id : Bytes}

section Traces

theorem provided_of_idle (h : idle r o = true) : provided id ⟨s, r, o⟩ = [] := by
  unfold provided brought
  dsimp only
  split
  · cases h
  · cases h
  · rfl

theorem handedOut_of_idle (h : idle r o = true) : handedOut id ⟨s, r, o⟩ = [] := by
  unfold handedOut
  dsimp only
  split
  · cases h
  · rfl

theorem queuedFor_of_idle (h : idle r o = true) : queuedFor id ⟨s, r, o⟩ = [] := by
  unfold queuedFor
  dsimp only
  split
  · rw [if_neg]
    rintro (rfl | rfl) <;> cases h
  · rfl

theorem fetched_of_idle (h : idle r o = true) : fetched id ⟨s, r, o⟩ = [] := by
  unfold fetched
  dsimp only
  split
  · cases h
  · rfl

theorem lost_of_idle (h : idle r o = true) : lost id ⟨s, r, o⟩ = [] := by
  unfold lost
  dsimp only
  split
  · rw [if_neg]
    rintro ⟨-, -, rfl | rfl⟩ <;> cases h
  · rfl

theorem lost_of_poisoned (h : s.poisoned = true) : lost id ⟨s, r, o⟩ = [] := by
  unfold lost
  dsimp only
  split
  · exact if_neg fun hlost => absurd hlost.2.1 (by simp [h])
  · rfl

theorem lost_of_received {c : ClientInfo} (hlookup : s.clients.lookup id = some c)
    (halive : s.poisoned = false) :
    lost id ⟨s, .msgRecv (some id) (.parsed c.authToken),
        ((s.emptied id c).answer write (.messages (c.welcomeQueue ++ c.msgs))).1⟩ =
      if write (.messages (c.welcomeQueue ++ c.msgs)) = .written then []
      else c.welcomeQueue ++ c.msgs := by
  unfold answer
  cases write (.messages (c.welcomeQueue ++ c.msgs)) <;> simp [lost, halive, ofClient, hlookup]

theorem taken_of_received {c : ClientInfo} (hlookup : s.clients.lookup id = some c)
    (halive : s.poisoned = false) :
    taken id ⟨s, .msgRecv (some id) (.parsed c.authToken),
        ((s.emptied id c).answer write (.messages (c.welcomeQueue ++ c.msgs))).1⟩ =
      c.welcomeQueue ++ c.msgs := by
  unfold answer
  cases write (.messages (c.welcomeQueue ++ c.msgs)) <;>
    simp [taken, fetched, lost, halive, ofClient, hlookup]

theorem taken_of_ne {i : Bytes} (hi : i ≠ id) (body : Body Bytes) :
    taken id ⟨s, .msgRecv (some i) body, o⟩ = [] := by
  cases o <;> simp [taken, fetched, lost, hi]

end Traces

theorem clientStep_of_idle (h : idle r o = true) (c : Option ClientInfo) :
    ClientStep c c (provided id ⟨s, r, o⟩) (handedOut id ⟨s, r, o⟩) (queuedFor id ⟨s, r, o⟩)
      (taken id ⟨s, r, o⟩) := by
  rw [provided_of_idle h, handedOut_of_idle h, queuedFor_of_idle h, taken, fetched_of_idle h,
    lost_of_idle h]
  exact .idle c

theorem lookup_of_ne {i : Bytes} {c : ClientInfo} (hi : i ≠ id) :
    (s.clients.insert i c).lookup id = s.clients.lookup id :=
  AList.lookup_insert_ne (Ne.symm hi)

theorem clientStep_of_outcome (hreset : ∀ key, r ≠ .reset key) (houtcome : Outcome write s r o s')
    (id : Bytes) :
    ClientStep (s.clients.lookup id) (s'.clients.lookup id) (provided id ⟨s, r, o⟩)
      (handedOut id ⟨s, r, o⟩) (queuedFor id ⟨s, r, o⟩)
      (taken id ⟨s, r, o⟩) := by
  cases houtcome with
  | dead hpoisoned =>
    -- a fetch is the one request whose refusal looks like an answer that was not written
    cases r with
    | msgRecv i body =>
      cases i with
      | none => exact .idle _
      | some i =>
        rw [taken, lost_of_poisoned hpoisoned]
        exact .idle _
    | _ => exact clientStep_of_idle rfl _
  | refused hidle => exact clientStep_of_idle hidle _
  | cleared => exact absurd rfl (hreset _)
  | @registered first rest token hnew =>
    by_cases hi : first.2.identity = id
    · subst hi
      rw [AList.lookup_eq_none.mpr hnew, AList.lookup_insert]
      simpa [provided, brought, handedOut, queuedFor, taken, fetched, lost] using
        ClientStep.register token first rest
    · rw [lookup_of_ne hi]
      simpa [provided, brought, handedOut, queuedFor, taken, fetched, lost, hi] using
        ClientStep.idle _
  | @published i c kps hlookup =>
    by_cases hi : i = id
    · subst hi
      rw [hlookup, AList.lookup_insert]
      simpa [provided, brought, handedOut, queuedFor, taken, fetched, lost] using
        ClientStep.publish c kps
    · rw [lookup_of_ne hi]
      simpa [provided, brought, handedOut, queuedFor, taken, fetched, lost, hi] using
        ClientStep.idle _
  | @consumed i hash c rest kp hlookup hrest hkps =>
    by_cases hi : i = id
    · subst hi
      rw [hlookup, AList.lookup_insert]
      simpa [provided, brought, handedOut, queuedFor, taken, fetched, lost] using
        ClientStep.consume hrest hkps
    · rw [lookup_of_ne hi]
      simpa [provided, brought, handedOut, queuedFor, taken, fetched, lost, hi] using
        ClientStep.idle _
  | @welcomed msg secrets order hcontent =>
    obtain ⟨hnone, hsome⟩ :=
      lookup_deliver msg (iterationOrder s.clients order) s.clients secrets id
    have hmsg : msg.isProtocol = false := by simp [MlsMessage.isProtocol, hcontent]
    simp only [provided, brought, handedOut, queuedFor, taken, fetched, lost, List.append_nil]
    cases hlookup : s.clients.lookup id with
    | none =>
      rw [hnone hlookup]
      exact .idle none
    | some c =>
      obtain ⟨reserved, hsubset, k, hcard, hafter⟩ := hsome c hlookup
      rw [hafter]
      exact .welcome hmsg hsubset hcard
  | poisoned hmsg => exact .idle _
  | @sent msg recipients isHandshake epoch groupId t hcontent hepoch =>
    have hmsg : msg.isProtocol = true := by simp [MlsMessage.isProtocol, hcontent]
    have hqueued : queuedFor id ⟨s, .msgSend (.parsed (msg, recipients)),
        (pushAll msg s.clients recipients).1⟩ =
          List.replicate ((recipients.takeWhile (· ∈ s.clients)).count id) msg :=
      if_pos (pushAll_fst msg s.clients recipients)
    rw [hqueued, lookup_pushAll]
    simp only [provided, brought, handedOut, taken, fetched, lost, List.append_nil]
    cases hlookup : s.clients.lookup id with
    | none =>
      -- nothing is queued behind the first recipient that is not known
      have hnever : id ∉ recipients.takeWhile (· ∈ s.clients) := by
        intro hmem
        have hknown := List.mem_takeWhile_imp hmem
        exact AList.lookup_eq_none.mp hlookup (by simpa using hknown)
      rw [List.count_eq_zero_of_not_mem hnever]
      exact .idle none
    | some c => exact .queue c hmsg _
  | @received i c hlookup halive =>
    by_cases hi : i = id
    · subst hi
      rw [taken_of_received hlookup halive, answer_clients, emptied, hlookup, AList.lookup_insert]
      exact .fetch c
    · rw [taken_of_ne hi, answer_clients, emptied, lookup_of_ne hi]
      exact .idle _
  | listed hlisted =>
    rw [answer_clients]
    cases hlisted <;> exact .idle _

/-- What a registered client has at the service, if `provided` was brought for it. -/
structure Holding (provided : List (Bytes × KeyPackage)) (c : ClientInfo) : Prop where
  nonempty : c.keyPackages ≠ []
  subset : c.keyPackages ⊆ provided
  reserved : ∀ hash ∈ c.reservedKeyPkgHash, hash ∈ provided.map Prod.fst
  msgs_isProtocol : ∀ m ∈ c.msgs, m.isProtocol = true
  welcomeQueue_isProtocol : ∀ m ∈ c.welcomeQueue, m.isProtocol = false

/-- The holding of a client, against what was handed out and taken so far. A reset of the service
keeps it. -/
structure Holdings (provided : List (Bytes × KeyPackage)) (handedOut : List KeyPackage)
    (taken : List MlsMessage) (c : Option ClientInfo) : Prop where
  holds : ∀ c' ∈ c, Holding provided c'
  welcomes : (taken.filter (! ·.isProtocol)).length + (c.elim [] (·.welcomeQueue)).length +
    c.elim 0 (·.reservedKeyPkgHash.card) ≤ handedOut.length

/-- The account of a client that was never cleared: nothing is lost or doubled. -/
structure Account (provided : List (Bytes × KeyPackage)) (handedOut : List KeyPackage)
    (queued taken : List MlsMessage) (c : Option ClientInfo) : Prop
    extends Holdings provided handedOut taken c where
  keyPackages : (provided.map Prod.snd).Perm
    (handedOut ++ c.elim [] (·.keyPackages.map Prod.snd))
  messages : queued = taken.filter (·.isProtocol) ++ c.elim [] (·.msgs)

variable {P p : List (Bytes × KeyPackage)} {H h : List KeyPackage} {Q T q t : List MlsMessage}
  {c c' : Option ClientInfo}

theorem Holdings.cleared (hh : Holdings P H T c) : Holdings P H T none := by
  refine ⟨nofun, ?_⟩
  have hwelcomes := hh.welcomes
  simp only [Option.elim_none, List.length_nil]
  omega

theorem holdings_nil : Holdings [] [] [] none := ⟨nofun, le_rfl⟩

theorem Holding.filter_msgs {c : ClientInfo} (hc : Holding P c) :
    c.msgs.filter (·.isProtocol) = c.msgs ∧ c.msgs.filter (! ·.isProtocol) = [] := by
  refine ⟨List.filter_eq_self.mpr hc.msgs_isProtocol, List.filter_eq_nil_iff.mpr ?_⟩
  intro m hm
  simp [hc.msgs_isProtocol m hm]

theorem Holding.filter_welcomeQueue {c : ClientInfo} (hc : Holding P c) :
    c.welcomeQueue.filter (·.isProtocol) = [] ∧
      c.welcomeQueue.filter (! ·.isProtocol) = c.welcomeQueue := by
  refine ⟨List.filter_eq_nil_iff.mpr ?_, List.filter_eq_self.mpr ?_⟩ <;>
  · intro m hm
    simp [hc.welcomeQueue_isProtocol m hm]

theorem Holdings.step (hh : Holdings P H T c) (hstep : ClientStep c c' p h q t) :
    Holdings (P ++ p) (H ++ h) (T ++ t) c' := by
  obtain ⟨hholds, hwelcomes⟩ := hh
  cases hstep with
  | idle =>
    simp only [List.append_nil]
    exact ⟨hholds, hwelcomes⟩
  | register token first rest =>
    simp only [List.append_nil]
    refine ⟨?_, hwelcomes⟩
    rintro _ ⟨⟩
    exact ⟨by simp [ClientInfo.new], List.subset_append_right _ _, by simp [ClientInfo.new],
      by simp [ClientInfo.new], by simp [ClientInfo.new]⟩
  | publish c =>
    have hc := hholds c rfl
    simp only [List.append_nil]
    refine ⟨?_, hwelcomes⟩
    rintro _ ⟨⟩
    refine { hc with nonempty := ?_, subset := ?_, reserved := ?_ }
    · intro hnil
      exact hc.nonempty (List.append_eq_nil_iff.mp hnil).1
    · exact List.append_subset.mpr ⟨List.Subset.trans hc.subset (List.subset_append_left _ _),
        List.subset_append_right _ _⟩
    · intro hash hhash
      rw [List.map_append]
      exact List.mem_append_left _ (hc.reserved hash hhash)
  | @consume c rest hash kp hrest hlast =>
    have hc := hholds c rfl
    simp only [List.append_nil]
    refine ⟨?_, ?_⟩
    · rintro _ ⟨⟩
      refine { hc with nonempty := hrest, subset := ?_, reserved := ?_ }
      · intro kp' hkp'
        exact hc.subset (hlast ▸ List.mem_append_left _ hkp')
      · intro hash' hhash'
        rcases Finset.mem_insert.mp hhash' with rfl | hhash'
        · -- the hash that is now reserved came with a key package of the client
          have hmem : (hash', kp) ∈ P := hc.subset (by simp [hlast])
          exact List.mem_map.mpr ⟨_, hmem, rfl⟩
        · exact hc.reserved hash' hhash'
    · have hcard := Finset.card_insert_le hash c.reservedKeyPkgHash
      simp only [Option.elim_some, List.length_append, List.length_singleton] at hwelcomes ⊢
      omega
  | @welcome c msg reserved k hmsg hsubset hcard =>
    have hc := hholds c rfl
    simp only [List.append_nil]
    refine ⟨?_, ?_⟩
    · rintro _ ⟨⟩
      refine { hc with
        reserved := fun hash hhash => hc.reserved hash (hsubset hhash)
        welcomeQueue_isProtocol := ?_ }
      intro m hm
      rcases List.mem_append.mp hm with hm | hm
      · exact hc.welcomeQueue_isProtocol m hm
      · rw [List.eq_of_mem_replicate hm]
        exact hmsg
    · simp only [Option.elim_some, List.length_append, List.length_replicate] at hwelcomes ⊢
      omega
  | @queue c msg hmsg k =>
    have hc := hholds c rfl
    simp only [List.append_nil]
    refine ⟨?_, hwelcomes⟩
    rintro _ ⟨⟩
    refine { hc with msgs_isProtocol := ?_ }
    intro m hm
    rcases List.mem_append.mp hm with hm | hm
    · exact hc.msgs_isProtocol m hm
    · rw [List.eq_of_mem_replicate hm]
      exact hmsg
  | fetch c =>
    have hc := hholds c rfl
    simp only [List.append_nil]
    refine ⟨?_, ?_⟩
    · rintro _ ⟨⟩
      exact { hc with msgs_isProtocol := nofun, welcomeQueue_isProtocol := nofun }
    · -- each queue holds one kind of message, so only the welcomes count
      rw [List.filter_append, List.filter_append, hc.filter_welcomeQueue.2, hc.filter_msgs.2]
      simpa using hwelcomes

theorem Account.step (ha : Account P H Q T c) (hstep : ClientStep c c' p h q t) :
    Account (P ++ p) (H ++ h) (Q ++ q) (T ++ t) c' := by
  refine ⟨ha.toHoldings.step hstep, ?_, ?_⟩
  · have hkps := ha.keyPackages
    cases hstep with
    | register token first rest =>
      simpa [ClientInfo.new] using hkps.append_right ((first :: rest).map Prod.snd)
    | publish c => simpa using hkps.append_right (p.map Prod.snd)
    | @consume c rest hash kp hrest hlast =>
      rw [List.append_nil]
      refine hkps.trans ?_
      simp only [Option.elim_some, hlast, List.map_append, List.append_assoc]
      exact List.perm_append_comm.append_left H
    | _ =>
      rw [List.append_nil, List.append_nil]
      exact hkps
  · have hmsgs := ha.messages
    cases hstep with
    | queue c hmsg k =>
      rw [hmsgs, List.append_nil, List.append_assoc]
      rfl
    | fetch c =>
      -- the protocol messages among those taken are the group messages
      have hc := ha.holds c rfl
      rw [hmsgs, List.filter_append, List.filter_append, hc.filter_welcomeQueue.1, hc.filter_msgs.1]
      simp
    | _ =>
      rw [List.append_nil, List.append_nil]
      exact hmsgs

variable (write)

theorem account_after {requests : List DsRequest} (hreset : ∀ key, .reset key ∉ requests)
    (id : Bytes) :
    Account ((history (handle write) start requests).flatMap (provided id))
      ((history (handle write) start requests).flatMap (handedOut id))
      ((history (handle write) start requests).flatMap (queuedFor id))
      ((history (handle write) start requests).flatMap (taken id))
      ((after (handle write) start requests).clients.lookup id) := by
  refine law_of_step (fun l s => Account (l.flatMap (provided id)) (l.flatMap (handedOut id))
    (l.flatMap (queuedFor id)) (l.flatMap (taken id)) (s.clients.lookup id)) ?_ ?_
  · exact ⟨holdings_nil, .nil, rfl⟩
  intro l s r hr ha
  have hstep := ha.step (clientStep_of_outcome (fun key hkey => hreset key (hkey ▸ hr))
    (outcome_handle write s r) id)
  simpa only [List.flatMap_append, List.flatMap_singleton] using hstep

theorem holdings_after (requests : List DsRequest) (id : Bytes) :
    Holdings ((history (handle write) start requests).flatMap (provided id))
      ((history (handle write) start requests).flatMap (handedOut id))
      ((history (handle write) start requests).flatMap (taken id))
      ((after (handle write) start requests).clients.lookup id) := by
  refine law_of_step (fun l s => Holdings (l.flatMap (provided id)) (l.flatMap (handedOut id))
    (l.flatMap (taken id)) (s.clients.lookup id)) ?_ ?_
  · exact holdings_nil
  intro l s r _ hh
  simp only [List.flatMap_append, List.flatMap_singleton]
  by_cases hreset : ∃ key, r = .reset key
  · obtain ⟨key, rfl⟩ := hreset
    have hkept : Holdings (l.flatMap (provided id) ++ []) (l.flatMap (handedOut id) ++ [])
        (l.flatMap (taken id) ++ []) ((s.reset key).2.clients.lookup id) := by
      simp only [List.append_nil]
      unfold reset
      split_ifs
      · exact hh
      · exact hh
      · exact hh.cleared
    exact hkept
  · exact hh.step (clientStep_of_outcome (fun key hkey => hreset ⟨key, hkey⟩)
      (outcome_handle write s r) id)

/-! ## The way of a welcome -/

def Exclusive (clients : Clients) : Prop :=
  ∀ hash id id' c c', clients.lookup id = some c → clients.lookup id' = some c' →
    hash ∈ c.reservedKeyPkgHash → hash ∈ c'.reservedKeyPkgHash → id = id'

theorem Exclusive.insert {clients : Clients} (h : Exclusive clients) {i : Bytes}
    {c c' : ClientInfo} (hlookup : clients.lookup i = some c)
    (hsubset : c'.reservedKeyPkgHash ⊆ c.reservedKeyPkgHash) :
    Exclusive (clients.insert i c') := by
  -- every client of the new map holds no more than the client of the same name before
  have hold : ∀ id d, (clients.insert i c').lookup id = some d → ∃ d',
      clients.lookup id = some d' ∧ d.reservedKeyPkgHash ⊆ d'.reservedKeyPkgHash := by
    intro id d hd
    by_cases hid : id = i
    · subst hid
      rw [AList.lookup_insert] at hd
      cases hd
      exact ⟨c, hlookup, hsubset⟩
    · rw [AList.lookup_insert_ne hid] at hd
      exact ⟨d, hd, subset_rfl⟩
  intro hash id id' d d' hd hd' hmem hmem'
  obtain ⟨e, he, hsub⟩ := hold id d hd
  obtain ⟨e', he', hsub'⟩ := hold id' d' hd'
  exact h hash id id' e e' he he' (hsub hmem) (hsub' hmem')

theorem mem_iterationOrder {clients : Clients} (order : List Bytes) {id : Bytes} :
    id ∈ iterationOrder clients order ↔ id ∈ clients := by
  unfold iterationOrder
  split_ifs with hperm
  · rw [hperm.mem_iff, AList.mem_keys]
  · rw [AList.mem_keys]

section Routing

variable {clients : Clients} {order secrets : List Bytes} {hash : Bytes}

theorem holder_eq_none (hall : ∀ id ∈ clients, id ∈ order) : holder clients order hash = none ↔
    ∀ id c, clients.lookup id = some c → hash ∉ c.reservedKeyPkgHash := by
  unfold holder
  rw [List.findSome?_eq_none_iff]
  constructor
  · intro h id c hlookup hmem
    have hnone := h id (hall id (AList.lookup_isSome.mp (by simp [hlookup])))
    simp [hlookup, hmem] at hnone
  · intro h id _
    cases hlookup : clients.lookup id with
    | none => rfl
    | some c => exact if_neg (h id c hlookup)

def welcomedWith (msg : MlsMessage) (secrets : List Bytes) (c : ClientInfo) : ClientInfo :=
  { c with
    reservedKeyPkgHash := c.reservedKeyPkgHash \ secrets.toFinset
    welcomeQueue := c.welcomeQueue ++
      List.replicate (c.reservedKeyPkgHash ∩ secrets.toFinset).card msg }

theorem welcomedWith_cons_of_not_mem (msg : MlsMessage) {c : ClientInfo}
    (hmem : hash ∉ c.reservedKeyPkgHash) (secrets : List Bytes) :
    welcomedWith msg (hash :: secrets) c = welcomedWith msg secrets c := by
  unfold welcomedWith
  rw [List.toFinset_cons, Finset.sdiff_insert_of_notMem hmem,
    Finset.inter_insert_of_notMem hmem]

theorem welcomedWith_cons_of_mem (msg : MlsMessage) {c : ClientInfo}
    (hmem : hash ∈ c.reservedKeyPkgHash) (secrets : List Bytes) :
    welcomedWith msg (hash :: secrets) c = welcomedWith msg secrets { c with
      reservedKeyPkgHash := c.reservedKeyPkgHash.erase hash
      welcomeQueue := c.welcomeQueue ++ [msg] } := by
  have hcard : (c.reservedKeyPkgHash ∩ insert hash secrets.toFinset).card =
      (c.reservedKeyPkgHash.erase hash ∩ secrets.toFinset).card + 1 := by
    rw [Finset.inter_insert_of_mem hmem, Finset.erase_inter, ← Finset.card_erase_add_one
      (Finset.mem_insert_self hash _), Finset.erase_insert_eq_erase]
  unfold welcomedWith
  rw [List.toFinset_cons, Finset.sdiff_insert, hcard, Finset.erase_sdiff_comm,
    List.replicate_succ, List.append_assoc, List.singleton_append]

/-- If no hash is reserved twice, the order of the iteration does not matter: every client gets
one copy for each of its reservations. -/
theorem lookup_deliver_eq (msg : MlsMessage) (hall : ∀ id ∈ clients, id ∈ order)
    (hexclusive : Exclusive clients) (id : Bytes) :
    (deliver msg order clients secrets).2.lookup id =
      (clients.lookup id).map (welcomedWith msg secrets) := by
  induction secrets generalizing clients with
  | nil => cases hlookup : clients.lookup id <;> simp [deliver, hlookup, welcomedWith]
  | cons hash secrets ih =>
    unfold deliver
    cases hholder : holder clients order hash with
    | none =>
      have hnone := (holder_eq_none hall).mp hholder
      dsimp only
      rw [ih hall hexclusive]
      cases hlookup : clients.lookup id with
      | none => rfl
      | some c =>
        rw [Option.map_some, Option.map_some,
          welcomedWith_cons_of_not_mem msg (hnone id c hlookup)]
    | some p =>
      obtain ⟨i, c⟩ := p
      obtain ⟨hlookup, hmem⟩ := holder_eq_some hholder
      have hknown : i ∈ clients := AList.lookup_isSome.mp (by simp [hlookup])
      dsimp only
      rw [ih ?_ ?_]
      · by_cases hid : id = i
        · subst hid
          rw [AList.lookup_insert, hlookup, Option.map_some, Option.map_some,
            welcomedWith_cons_of_mem msg hmem]
        · rw [AList.lookup_insert_ne hid]
          cases hother : clients.lookup id with
          | none => rfl
          | some c' =>
            -- the hash is reserved for client `i` alone
            have hfree : hash ∉ c'.reservedKeyPkgHash := fun hmem' =>
              hid (hexclusive hash id i c' c hother hlookup hmem' hmem)
            rw [Option.map_some, Option.map_some, welcomedWith_cons_of_not_mem msg hfree]
      · intro j hj
        rcases (AList.mem_insert _).mp hj with rfl | hj
        · exact hall _ hknown
        · exact hall j hj
      · exact hexclusive.insert hlookup (Finset.erase_subset _ _)

end Routing

def broughtHashes (e : DsExchange) : List Bytes := (brought e).elim [] (·.2.map Prod.fst)

theorem mem_of_mem_provided {hash id : Bytes} {e : DsExchange}
    (h : hash ∈ (provided id e).map Prod.fst) :
    hash ∈ broughtHashes e ∧ (brought e).map Prod.fst = some id := by
  unfold provided at h
  unfold broughtHashes
  cases hbrought : brought e with
  | none => simp [hbrought] at h
  | some p =>
    rw [hbrought, Option.elim_some] at h
    split_ifs at h with hid
    · exact ⟨h, congrArg some hid⟩
    · cases h

theorem exclusive_after {requests : List DsRequest}
    (hdistinct : ((history (handle write) start requests).flatMap broughtHashes).Nodup) :
    Exclusive (after (handle write) start requests).clients := by
  intro hash id id' c c' hc hc' hmem hmem'
  have hown := ((holdings_after write requests id).holds c hc).reserved hash hmem
  have hown' := ((holdings_after write requests id').holds c' hc').reserved hash hmem'
  rw [List.map_flatMap, List.mem_flatMap] at hown hown'
  obtain ⟨e, he, hhash⟩ := hown
  obtain ⟨e', he', hhash'⟩ := hown'
  obtain ⟨hbrought, hid⟩ := mem_of_mem_provided hhash
  obtain ⟨hbrought', hid'⟩ := mem_of_mem_provided hhash'
  -- both came with the same request
  have hsame : e = e' := by
    by_contra hne
    have hsymm : Std.Symm (Function.onFun List.Disjoint broughtHashes) := ⟨fun _ _ h => h.symm⟩
    exact (List.nodup_flatMap.mp hdistinct).2.forall he he' hne hbrought hbrought'
  rw [hsame, hid'] at hid
  exact (Option.some.inj hid).symm

/-! ## Losses and tokens -/

variable {write}

theorem lost_of_outcome (houtcome : Outcome write s r o s') (id : Bytes)
    (hlost : lost id ⟨s, r, o⟩ ≠ []) : write (.messages (lost id ⟨s, r, o⟩)) ≠ .written := by
  cases houtcome with
  | dead hpoisoned => exact absurd (lost_of_poisoned hpoisoned) hlost
  | refused hidle => exact absurd (lost_of_idle hidle) hlost
  | listed hlisted => cases hlisted <;> exact absurd rfl hlost
  | @received i c hlookup halive =>
    by_cases hi : i = id
    · subst hi
      rw [lost_of_received hlookup halive] at hlost ⊢
      split_ifs at hlost ⊢ with hwrite
      · exact absurd rfl hlost
      · exact hwrite
    · exact absurd (if_neg fun h => hi h.1) hlost
  | _ => exact absurd rfl hlost

theorem taken_of_outcome (houtcome : Outcome write s r o s') (htaken : taken id ⟨s, r, o⟩ ≠ []) :
    ∃ c, s.clients.lookup id = some c ∧ r = .msgRecv (some id) (.parsed c.authToken) := by
  cases houtcome with
  | dead hpoisoned =>
    refine absurd ?_ htaken
    rw [taken, lost_of_poisoned hpoisoned, List.append_nil]
    cases r with
    | msgRecv i body => cases i <;> rfl
    | _ => exact fetched_of_idle rfl
  | refused hidle =>
    exact absurd (by rw [taken, fetched_of_idle hidle, lost_of_idle hidle, List.append_nil]) htaken
  | @received i c hlookup halive =>
    by_cases hi : i = id
    · subst hi
      exact ⟨c, hlookup, rfl⟩
    · exact absurd (taken_of_ne hi _) htaken
  | listed hlisted => cases hlisted <;> exact absurd rfl htaken
  | _ => exact absurd rfl htaken

def Granted (id token : Bytes) (l : List DsExchange) : Prop :=
  ∃ e ∈ l, ∃ first rest, first.2.identity = id ∧
    e.request = .registerClient (.parsed (first :: rest)) token ∧ e.response = .token token

theorem Granted.append {token : Bytes} {l : List DsExchange} (h : Granted id token l)
    (m : List DsExchange) : Granted id token (l ++ m) := by
  obtain ⟨e, he, hgrant⟩ := h
  exact ⟨e, List.mem_append_left m he, hgrant⟩

theorem granted_of_outcome {l : List DsExchange} (houtcome : Outcome write s r o s')
    (h : ∀ c ∈ s.clients.lookup id, Granted id c.authToken l) :
    ∀ c ∈ s'.clients.lookup id, Granted id c.authToken (l ++ [⟨s, r, o⟩]) := by
  -- it is enough to find the token of a client in the state before
  have hkeep : ∀ c c' : ClientInfo, s.clients.lookup id = some c → c'.authToken = c.authToken →
      Granted id c'.authToken (l ++ [⟨s, r, o⟩]) := by
    intro c c' hc htoken
    rw [htoken]
    exact (h c hc).append _
  have hinsert : ∀ i c d, s.clients.lookup i = some c → d.authToken = c.authToken →
      ∀ c' ∈ (s.clients.insert i d).lookup id, Granted id c'.authToken (l ++ [⟨s, r, o⟩]) := by
    intro i c d hc htoken c' hc'
    by_cases hi : i = id
    · subst hi
      rw [AList.lookup_insert] at hc'
      cases hc'
      exact hkeep c d hc htoken
    · rw [lookup_of_ne hi] at hc'
      exact hkeep c' c' hc' rfl
  cases houtcome with
  | @registered first rest token hnew =>
    intro c hc
    by_cases hi : first.2.identity = id
    · rw [hi, AList.lookup_insert] at hc
      cases hc
      exact ⟨_, List.mem_append_right l (List.mem_singleton_self _), first, rest, hi, rfl, rfl⟩
    · rw [lookup_of_ne hi] at hc
      exact hkeep c c hc rfl
  | cleared => exact nofun
  | published hlookup => exact hinsert _ _ _ hlookup rfl
  | consumed hlookup _ _ => exact hinsert _ _ _ hlookup rfl
  | received hlookup _ =>
    rw [answer_clients]
    exact hinsert _ _ _ hlookup rfl
  | listed _ =>
    rw [answer_clients]
    exact fun c hc => hkeep c c hc rfl
  | @welcomed msg secrets order _ =>
    intro c' hc'
    obtain ⟨hnone, hsome⟩ :=
      lookup_deliver msg (iterationOrder s.clients order) s.clients secrets id
    cases hlookup : s.clients.lookup id with
    | none =>
      rw [hnone hlookup] at hc'
      cases hc'
    | some c =>
      obtain ⟨_, -, _, -, hafter⟩ := hsome c hlookup
      rw [hafter] at hc'
      cases hc'
      exact hkeep c _ hlookup rfl
  | sent _ _ =>
    intro c' hc'
    rw [lookup_pushAll] at hc'
    obtain ⟨c, hc, rfl⟩ := Option.map_eq_some_iff.mp hc'
    exact hkeep c _ hc rfl
  | dead _ => exact fun c hc => hkeep c c hc rfl
  | refused _ => exact fun c hc => hkeep c c hc rfl
  | poisoned _ => exact fun c hc => hkeep c c hc rfl

/-- Every client holds a token that it was given, and so did those whose messages were taken
out. -/
structure Guarded (id : Bytes) (l : List DsExchange) (s : DsData) : Prop where
  held : ∀ c ∈ s.clients.lookup id, Granted id c.authToken l
  shown : ∀ l₁ e l₂, l = l₁ ++ e :: l₂ → taken id e ≠ [] →
    ∃ token, e.request = .msgRecv (some id) (.parsed token) ∧ Granted id token l₁

theorem Guarded.step {l : List DsExchange} (h : Guarded id l s)
    (houtcome : Outcome write s r o s') : Guarded id (l ++ [⟨s, r, o⟩]) s' := by
  refine ⟨granted_of_outcome houtcome h.held, ?_⟩
  intro l₁ e l₂ hsplit htaken
  rcases List.eq_nil_or_concat l₂ with rfl | ⟨l₂, e', rfl⟩
  · obtain ⟨rfl, heq⟩ := List.append_inj' hsplit rfl
    obtain ⟨rfl, -⟩ := List.cons.inj heq
    obtain ⟨c, hc, hr⟩ := taken_of_outcome houtcome htaken
    exact ⟨c.authToken, hr, h.held c hc⟩
  · rw [List.concat_eq_append, ← List.cons_append, ← List.append_assoc] at hsplit
    exact h.shown l₁ e l₂ (List.append_inj' hsplit rfl).1 htaken

theorem guarded_after (write : DsResponse → Writing) (requests : List DsRequest) (id : Bytes) :
    Guarded id (history (handle write) start requests) (after (handle write) start requests) := by
  refine law_of_step (Guarded id) ⟨by simp [start], by simp⟩ ?_
  intro l s r _ h
  exact h.step (outcome_handle write s r)

end DsData

/-- A client registers, one of its key packages is handed out, the welcome for it is sent twice,
two group messages are sent, the second one also to a client that is not known, and the client
fetches its messages. -/
def toyRequests : List DsRequest :=
  [.registerClient (.parsed [([1], ⟨[7], [1]⟩), ([2], ⟨[7], [2]⟩)]) [9],
    .consumeKeyPackage (some [7]),
    .sendWelcome (.parsed ⟨.welcome [[2]], [0]⟩) [],
    .sendWelcome (.parsed ⟨.welcome [[2]], [0]⟩) [],
    .msgSend (.parsed (⟨.protocol false 0 [1], [5]⟩, [[7]])),
    .msgSend (.parsed (⟨.protocol false 0 [1], [6]⟩, [[7], [8]])),
    .msgRecv (some [7]) (.parsed [9])]

theorem reset_notMem_toyRequests : ∀ key, .reset key ∉ toyRequests := by simp [toyRequests]

/-- Group messages come in the order in which they were sent, each one once: what was sent to a
client is what was taken out of its queue, followed by what is still in it. Messages that were
taken out are lost only if the serializer does not write the answer. -/
theorem group_messages_in_order (write : DsResponse → Writing) {requests : List DsRequest}
    (hreset : ∀ key, .reset key ∉ requests) (id : Bytes) :
    (history (DsData.handle write) DsData.start requests).flatMap (DsData.queuedFor id) =
        ((history (DsData.handle write) DsData.start requests).flatMap (DsData.taken id)).filter
            (·.isProtocol) ++
          (after (DsData.handle write) DsData.start requests).ofClient id (·.msgs) ∧
      ∀ e ∈ history (DsData.handle write) DsData.start requests, DsData.lost id e ≠ [] →
        write (.messages (DsData.lost id e)) ≠ .written := by
  refine ⟨(DsData.account_after write hreset id).messages, ?_⟩
  rintro ⟨s, r, o⟩ he hlost
  obtain rfl : o = (s.handle write r).1 := response_of_mem_history he
  exact DsData.lost_of_outcome (DsData.outcome_handle write s r) id hlost

/-- The answer is too long: all three messages are taken out, and lost. -/
theorem group_messages_in_order_toy :
    ((history (DsData.handle toyWrite) DsData.start toyRequests).flatMap
        (DsData.taken [7])).filter (·.isProtocol) =
      [⟨.protocol false 0 [1], [5]⟩, ⟨.protocol false 0 [1], [6]⟩] ∧
    ∃ e ∈ history (DsData.handle toyWrite) DsData.start toyRequests,
      (DsData.lost [7] e).length = 3 ∧ toyWrite (.messages (DsData.lost [7] e)) ≠ .written := by
  obtain ⟨horder, hlost⟩ := group_messages_in_order toyWrite reset_notMem_toyRequests [7]
  have hsent : (history (DsData.handle toyWrite) DsData.start toyRequests).flatMap
      (DsData.queuedFor [7]) =
        [⟨.protocol false 0 [1], [5]⟩, ⟨.protocol false 0 [1], [6]⟩] := by decide +kernel
  have hempty : (after (DsData.handle toyWrite) DsData.start toyRequests).ofClient [7] (·.msgs) =
      [] := by decide +kernel
  obtain ⟨e, he, hthree⟩ : ∃ e ∈ history (DsData.handle toyWrite) DsData.start toyRequests,
      (DsData.lost [7] e).length = 3 :=
    ⟨_, List.mem_of_getLast? (a := (history (DsData.handle toyWrite) DsData.start
      toyRequests).getLast (by decide +kernel)) (List.getLast?_eq_some_getLast _),
        by decide +kernel⟩
  rw [hsent, hempty, List.append_nil] at horder
  refine ⟨horder.symm, e, he, hthree, hlost e he ?_⟩
  exact List.ne_nil_of_length_pos (by omega)

/-- A welcome reaches exactly the clients whose key packages it was made for, whatever the order
of the iteration: each gets one copy for each of its reservations that the welcome names, and
these reservations are used up. -/
theorem welcome_reaches_holders (write : DsResponse → Writing) {requests : List DsRequest}
    (hdistinct : ((history (DsData.handle write) DsData.start requests).flatMap
      DsData.broughtHashes).Nodup)
    (halive : (after (DsData.handle write) DsData.start requests).poisoned = false)
    {msg : MlsMessage} {secrets : List Bytes} (hmsg : msg.content = .welcome secrets)
    (order : List Bytes) (id : Bytes) :
    ((after (DsData.handle write) DsData.start requests).handle write
        (.sendWelcome (.parsed msg) order)).2.clients.lookup id =
      ((after (DsData.handle write) DsData.start requests).clients.lookup id).map fun c =>
        { c with
          reservedKeyPkgHash := c.reservedKeyPkgHash \ secrets.toFinset
          welcomeQueue := c.welcomeQueue ++
            List.replicate (c.reservedKeyPkgHash ∩ secrets.toFinset).card msg } := by
  have hexclusive := DsData.exclusive_after write hdistinct
  generalize after (DsData.handle write) DsData.start requests = s at *
  have hall : ∀ i ∈ s.clients, i ∈ iterationOrder s.clients order :=
    fun i hi => (DsData.mem_iterationOrder order).mpr hi
  have hstep : (s.handle write (.sendWelcome (.parsed msg) order)).2.clients =
      (deliver msg (iterationOrder s.clients order) s.clients secrets).2 := by
    simp [DsData.handle, DsData.sendWelcome, hmsg, halive]
  rw [hstep]
  exact DsData.lookup_deliver_eq msg hall hexclusive id

theorem welcome_reaches_holders_toy :
    ∃ c c', (after (DsData.handle toyWrite) DsData.start (toyRequests.take 2)).clients.lookup
        [7] = some c ∧
      c.reservedKeyPkgHash = {[2]} ∧
      ((after (DsData.handle toyWrite) DsData.start (toyRequests.take 2)).handle toyWrite
        (.sendWelcome (.parsed ⟨.welcome [[2], [3], [2]], [0]⟩) [[7]])).2.clients.lookup [7] =
          some c' ∧
      c'.reservedKeyPkgHash = ∅ ∧ c'.welcomeQueue = [⟨.welcome [[2], [3], [2]], [0]⟩] := by
  obtain ⟨c, hc, hreserved, hqueue⟩ : ∃ c,
      (after (DsData.handle toyWrite) DsData.start (toyRequests.take 2)).clients.lookup [7] =
        some c ∧ c.reservedKeyPkgHash = {[2]} ∧ c.welcomeQueue = [] := ⟨_, rfl, by decide, rfl⟩
  have hreach : ((after (DsData.handle toyWrite) DsData.start (toyRequests.take 2)).handle
      toyWrite (.sendWelcome (.parsed ⟨.welcome [[2], [3], [2]], [0]⟩)
        [[7]])).2.clients.lookup [7] = _ :=
    welcome_reaches_holders toyWrite (by decide +kernel) (by decide +kernel) rfl [[7]] [7]
  rw [hc, Option.map_some] at hreach
  refine ⟨c, _, hc, hreserved, hreach, ?_, ?_⟩
  · dsimp only
    rw [hreserved]
    decide
  · dsimp only
    rw [hreserved, hqueue]
    decide

/-- Messages of a client are taken out only against the token that an earlier registration of
this client was answered with. -/
theorem messages_only_for_token (write : DsResponse → Writing) {requests : List DsRequest}
    {l₁ l₂ : List DsExchange} {e : DsExchange} {id : Bytes}
    (hhistory : history (DsData.handle write) DsData.start requests = l₁ ++ e :: l₂)
    (htaken : DsData.taken id e ≠ []) :
    ∃ token, e.request = .msgRecv (some id) (.parsed token) ∧ DsData.Granted id token l₁ :=
  (DsData.guarded_after write requests id).shown l₁ e l₂ hhistory htaken

theorem messages_only_for_token_toy :
    ∃ token, DsRequest.msgRecv (some [7]) (.parsed [9]) = .msgRecv (some [7]) (.parsed token) ∧
      DsData.Granted [7] token
        (history (DsData.handle toyWrite) DsData.start (toyRequests.take 6)) := by
  obtain ⟨e, hhistory, hrequest, htaken⟩ : ∃ e,
      history (DsData.handle toyWrite) DsData.start toyRequests =
        history (DsData.handle toyWrite) DsData.start (toyRequests.take 6) ++ e :: [] ∧
      e.request = .msgRecv (some [7]) (.parsed [9]) ∧ DsData.taken [7] e ≠ [] :=
    ⟨_, rfl, rfl, by decide +kernel⟩
  rw [← hrequest]
  exact messages_only_for_token toyWrite hhistory htaken

end SafeCast
