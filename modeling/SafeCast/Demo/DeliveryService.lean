import Mathlib.Data.Finset.Card
import Mathlib.Data.List.AList
import SafeCast.Keying.Mls
import SafeCast.Library.Service

/-! # The delivery service

The service hands out the key packages of its clients, routes a welcome to those whose key
packages it was made for, and queues group messages until the recipients fetch them. It knows
of a group only the latest epoch. All requests take the lock of the clients first.
-/

namespace SafeCast

open Service

/-- What the service reads of an MLS message. -/
inductive MessageContent where
  /-- A welcome, with the hash of a key package for each new member. -/
  | welcome (secrets : List Bytes)
  /-- A public or private message; handshakes are proposals and commits. -/
  | protocol (isHandshake : Bool) (epoch : ℕ) (groupId : Bytes)
  | other
  deriving DecidableEq, Repr

structure MlsMessage where
  content : MessageContent
  wire : Bytes
  deriving DecidableEq, Repr

/-- Whether the message converts to a `ProtocolMessage`. -/
def MlsMessage.isProtocol (msg : MlsMessage) : Bool :=
  match msg.content with
  | .protocol _ _ _ => true
  | _ => false

structure KeyPackage where
  identity : Bytes
  wire : Bytes
  deriving DecidableEq, Repr

structure ClientInfo where
  id : Bytes
  /-- The key packages with their hashes; the last one is handed out next. -/
  keyPackages : List (Bytes × KeyPackage)
  reservedKeyPkgHash : Finset Bytes
  msgs : List MlsMessage
  welcomeQueue : List MlsMessage
  authToken : Bytes
  deriving DecidableEq

/-- A client is known by the identity in its first key package. -/
def ClientInfo.new (token : Bytes) (first : Bytes × KeyPackage) (rest : List (Bytes × KeyPackage)) :
    ClientInfo :=
  ⟨first.2.identity, first :: rest, ∅, [], [], token⟩

/-- The last key package of a client is kept back. -/
def ClientInfo.consumeKp (c : ClientInfo) : Option (KeyPackage × ClientInfo) :=
  if c.keyPackages.length ≤ 1 then none
  else
    match c.keyPackages.getLast? with
    | none => none
    | some (hash, kp) =>
      some (kp, { c with
        keyPackages := c.keyPackages.dropLast
        reservedKeyPkgHash := insert hash c.reservedKeyPkgHash })

abbrev Clients := AList fun _ : Bytes => ClientInfo

structure DsData where
  clients : Clients
  /-- The epoch of the last handshake message of a group. -/
  groups : AList fun _ : Bytes => ℕ
  /-- A handler has aborted with the locks held. -/
  poisoned : Bool

/-- A request's body: its stream may break off, and it may not parse. -/
inductive Body (α : Type) where
  | broken
  | malformed
  | parsed (a : α)

/-- The requests. An identity in the path is `none` if it does not decode. -/
inductive DsRequest where
  /-- With the token that is drawn for the client. -/
  | registerClient (body : Body (List (Bytes × KeyPackage))) (token : Bytes)
  | listClients
  | reset (resetKey : Option Bytes)
  | getKeyPackages (id : Option Bytes)
  | publishKeyPackages (id : Option Bytes) (body : Body (Bytes × List (Bytes × KeyPackage)))
  | consumeKeyPackage (id : Option Bytes)
  /-- With the order in which the map of the clients is iterated. -/
  | sendWelcome (body : Body MlsMessage) (order : List Bytes)
  | msgSend (body : Body (MlsMessage × List Bytes))
  | msgRecv (id : Option Bytes) (body : Body Bytes)

inductive DsResponse where
  | ok
  | token (token : Bytes)
  | clients (ids : List Bytes)
  | keyPackages (kps : List (Bytes × KeyPackage))
  | keyPackage (kp : KeyPackage)
  | messages (out : List MlsMessage)
  | noContent
  | partialContent
  | badRequest
  | unauthorized
  | notFound
  | conflict
  | internalServerError
  | networkAuthenticationRequired
  /-- The handler has aborted. -/
  | aborted
  deriving DecidableEq

/-- Queue the message for the recipients one by one, up to the first that is not known. -/
def pushAll (msg : MlsMessage) : Clients → List Bytes → DsResponse × Clients
  | clients, [] => (.ok, clients)
  | clients, recipient :: recipients =>
    match clients.lookup recipient with
    | none => (.notFound, clients)
    | some c => pushAll msg (clients.insert recipient { c with msgs := c.msgs ++ [msg] }) recipients

def holder (clients : Clients) (order : List Bytes) (hash : Bytes) : Option (Bytes × ClientInfo) :=
  order.findSome? fun id =>
    match clients.lookup id with
    | some c => if hash ∈ c.reservedKeyPkgHash then some (id, c) else none
    | none => none

/-- Queue the welcome for a holder of each hash, and count the deliveries. -/
def deliver (msg : MlsMessage) (order : List Bytes) : Clients → List Bytes → ℕ × Clients
  | clients, [] => (0, clients)
  | clients, hash :: secrets =>
    match holder clients order hash with
    | none => deliver msg order clients secrets
    | some (id, c) =>
      let r := deliver msg order (clients.insert id { c with
        reservedKeyPkgHash := c.reservedKeyPkgHash.erase hash
        welcomeQueue := c.welcomeQueue ++ [msg] }) secrets
      (r.1 + 1, r.2)

/-- The order in which the map is iterated can be any order of its keys. -/
def iterationOrder (clients : Clients) (order : List Bytes) : List Bytes :=
  if order.Perm clients.keys then order else clients.keys

inductive Writing where
  | written
  | failed
  | panicked
  deriving DecidableEq, Repr

namespace DsData

def start : DsData := ⟨∅, ∅, false⟩

section Handlers

-- the serializer of lists; it is not part of this repository, and whether it refuses a list
-- that is too long or aborts depends on the build
variable (write : DsResponse → Writing)

/-- The end of a handler that writes out a list. It still holds the lock of the clients. -/
def answer (s : DsData) (o : DsResponse) : DsResponse × DsData :=
  match write o with
  | .written => (o, s)
  | .failed => (.internalServerError, s)
  | .panicked => (.aborted, { s with poisoned := true })

def registerClient (s : DsData) (body : Body (List (Bytes × KeyPackage))) (token : Bytes) :
    DsResponse × DsData :=
  match body with
  | .broken => (.partialContent, s)
  | .malformed => (.badRequest, s)
  | .parsed [] => (.badRequest, s)
  | .parsed (first :: rest) =>
    let client := ClientInfo.new token first rest
    if s.poisoned then (.internalServerError, s)
    else if client.id ∈ s.clients then (.conflict, s)
    else (.token token, { s with clients := s.clients.insert client.id client })

def listClients (s : DsData) : DsResponse × DsData :=
  if s.poisoned then (.internalServerError, s)
  else s.answer write (.clients (s.clients.entries.map (·.2.id)))

def resetPassword : Bytes := asciiBytes "poc-reset-password"

/-- The key is checked only if there is one. -/
def reset (s : DsData) (resetKey : Option Bytes) : DsResponse × DsData :=
  if resetKey.any (· != resetPassword) then (.networkAuthenticationRequired, s)
  else if s.poisoned then (.internalServerError, s)
  else (.ok, { s with clients := ∅, groups := ∅ })

def getKeyPackages (s : DsData) (id : Option Bytes) : DsResponse × DsData :=
  if s.poisoned then (.internalServerError, s)
  else
    match id with
    | none => (.badRequest, s)
    | some id =>
      match s.clients.lookup id with
      | none => (.noContent, s)
      | some c => s.answer write (.keyPackages c.keyPackages)

def publishKeyPackages (s : DsData) (id : Option Bytes)
    (body : Body (Bytes × List (Bytes × KeyPackage))) : DsResponse × DsData :=
  match body with
  | .broken => (.partialContent, s)
  | body =>
    if s.poisoned then (.internalServerError, s)
    else
      match id with
      | none => (.badRequest, s)
      | some id =>
        match s.clients.lookup id, body with
        | none, _ => (.notFound, s)
        | some c, .parsed (token, kps) =>
          if c.authToken ≠ token then (.unauthorized, s)
          else
            (.ok, { s with clients :=
              s.clients.insert id { c with keyPackages := c.keyPackages ++ kps } })
        | some _, _ => (.badRequest, s)

def consumeKeyPackage (s : DsData) (id : Option Bytes) : DsResponse × DsData :=
  if s.poisoned then (.internalServerError, s)
  else
    match id with
    | none => (.badRequest, s)
    | some id =>
      match s.clients.lookup id with
      | none => (.noContent, s)
      | some c =>
        match c.consumeKp with
        | none => (.noContent, s)
        | some (kp, c) => (.keyPackage kp, { s with clients := s.clients.insert id c })

def sendWelcome (s : DsData) (body : Body MlsMessage) (order : List Bytes) :
    DsResponse × DsData :=
  match body with
  | .broken => (.partialContent, s)
  | .malformed => (.internalServerError, s)
  | .parsed msg =>
    match msg.content with
    | .welcome secrets =>
      if s.poisoned then (.internalServerError, s)
      else
        let r := deliver msg (iterationOrder s.clients order) s.clients secrets
        (if 0 < r.1 then .ok else .noContent, { s with clients := r.2 })
    | _ => (.aborted, s)

/-- Record the epoch of a handshake message, unless a later one is known. -/
def advanceEpoch (s : DsData) (isHandshake : Bool) (epoch : ℕ) (groupId : Bytes) :
    Option DsData :=
  if isHandshake then
    match s.groups.lookup groupId with
    | some groupEpoch =>
      if epoch < groupEpoch then none
      else some { s with groups := s.groups.insert groupId epoch }
    | none => some { s with groups := s.groups.insert groupId epoch }
  else some s

/-- The message is converted with the locks held: if it is not a protocol message, the handler
aborts and poisons them. -/
def msgSend (s : DsData) (body : Body (MlsMessage × List Bytes)) : DsResponse × DsData :=
  match body with
  | .broken => (.partialContent, s)
  | .malformed => (.internalServerError, s)
  | .parsed (msg, recipients) =>
    if s.poisoned then (.internalServerError, s)
    else
      match msg.content with
      | .protocol isHandshake epoch groupId =>
        match s.advanceEpoch isHandshake epoch groupId with
        | none => (.conflict, s)
        | some s =>
          let r := pushAll msg s.clients recipients
          (r.1, { s with clients := r.2 })
      | _ => (.aborted, { s with poisoned := true })

def emptied (s : DsData) (id : Bytes) (c : ClientInfo) : DsData :=
  { s with clients := s.clients.insert id { c with msgs := [], welcomeQueue := [] } }

/-- The queues are emptied before the messages are written out. -/
def msgRecv (s : DsData) (id : Option Bytes) (body : Body Bytes) : DsResponse × DsData :=
  match body with
  | .broken => (.partialContent, s)
  | body =>
    if s.poisoned then (.internalServerError, s)
    else
      match id with
      | none => (.badRequest, s)
      | some id =>
        match s.clients.lookup id, body with
        | none, _ => (.notFound, s)
        | some c, .parsed token =>
          if token ≠ c.authToken then (.unauthorized, s)
          else
            (s.emptied id c).answer write (.messages (c.welcomeQueue ++ c.msgs))
        | some _, _ => (.badRequest, s)

def handle (s : DsData) : DsRequest → DsResponse × DsData
  | .registerClient body token => s.registerClient body token
  | .listClients => s.listClients write
  | .reset resetKey => s.reset resetKey
  | .getKeyPackages id => s.getKeyPackages write id
  | .publishKeyPackages id body => s.publishKeyPackages id body
  | .consumeKeyPackage id => s.consumeKeyPackage id
  | .sendWelcome body order => s.sendWelcome body order
  | .msgSend body => s.msgSend body
  | .msgRecv id body => s.msgRecv write id body

end Handlers

/-! ## What a request can do -/

section Answer

variable (write : DsResponse → Writing) (s : DsData) (o : DsResponse)

@[simp]
theorem answer_clients : (s.answer write o).2.clients = s.clients := by
  unfold answer
  cases write o <;> rfl

@[simp]
theorem answer_groups : (s.answer write o).2.groups = s.groups := by
  unfold answer
  cases write o <;> rfl

end Answer

inductive Listed (s : DsData) : DsRequest → DsResponse → Prop where
  | clients : Listed s .listClients (.clients (s.clients.entries.map (·.2.id)))
  | keyPackages {id : Bytes} {c : ClientInfo} (h : s.clients.lookup id = some c) :
      Listed s (.getKeyPackages (some id)) (.keyPackages c.keyPackages)

def idle : DsRequest → DsResponse → Bool
  | _, .ok => false
  | _, .token _ => false
  | _, .keyPackage _ => false
  | _, .messages _ => false
  | .msgSend _, .notFound => false
  | .msgSend _, .aborted => false
  | .msgRecv _ _, .internalServerError => false
  | .msgRecv _ _, .aborted => false
  | _, _ => true

inductive Outcome (write : DsResponse → Writing) (s : DsData) :
    DsRequest → DsResponse → DsData → Prop where
  | dead {r : DsRequest} (h : s.poisoned = true) : Outcome write s r .internalServerError s
  | refused {r : DsRequest} {o : DsResponse} (h : idle r o = true) : Outcome write s r o s
  | listed {r : DsRequest} {o : DsResponse} (h : s.Listed r o) :
      Outcome write s r (s.answer write o).1 (s.answer write o).2
  | registered {first : Bytes × KeyPackage} {rest : List (Bytes × KeyPackage)} {token : Bytes}
      (h : first.2.identity ∉ s.clients) :
      Outcome write s (.registerClient (.parsed (first :: rest)) token) (.token token)
        { s with clients := s.clients.insert first.2.identity (.new token first rest) }
  | cleared {resetKey : Option Bytes} :
      Outcome write s (.reset resetKey) .ok { s with clients := ∅, groups := ∅ }
  | published {id : Bytes} {c : ClientInfo} {kps : List (Bytes × KeyPackage)}
      (h : s.clients.lookup id = some c) :
      Outcome write s (.publishKeyPackages (some id) (.parsed (c.authToken, kps))) .ok
        { s with clients := s.clients.insert id { c with keyPackages := c.keyPackages ++ kps } }
  | consumed {id hash : Bytes} {c : ClientInfo} {rest : List (Bytes × KeyPackage)}
      {kp : KeyPackage} (h : s.clients.lookup id = some c)
      (hrest : rest ≠ []) (hkps : c.keyPackages = rest ++ [(hash, kp)]) :
      Outcome write s (.consumeKeyPackage (some id)) (.keyPackage kp)
        { s with clients := s.clients.insert id { c with
            keyPackages := rest, reservedKeyPkgHash := insert hash c.reservedKeyPkgHash } }
  | welcomed {msg : MlsMessage} {secrets order : List Bytes}
      (h : msg.content = .welcome secrets) :
      Outcome write s (.sendWelcome (.parsed msg) order)
        (if 0 < (deliver msg (iterationOrder s.clients order) s.clients secrets).1 then .ok
          else .noContent)
        { s with clients := (deliver msg (iterationOrder s.clients order) s.clients secrets).2 }
  | poisoned {msg : MlsMessage} {recipients : List Bytes}
      (h : msg.isProtocol = false) :
      Outcome write s (.msgSend (.parsed (msg, recipients))) .aborted { s with poisoned := true }
  | sent {msg : MlsMessage} {recipients : List Bytes} {isHandshake : Bool} {epoch : ℕ}
      {groupId : Bytes} {s' : DsData} (h : msg.content = .protocol isHandshake epoch groupId)
      (hepoch : s.advanceEpoch isHandshake epoch groupId = some s') :
      Outcome write s (.msgSend (.parsed (msg, recipients))) (pushAll msg s.clients recipients).1
        { s' with clients := (pushAll msg s.clients recipients).2 }
  | received {id : Bytes} {c : ClientInfo} (h : s.clients.lookup id = some c)
      (halive : s.poisoned = false) :
      Outcome write s (.msgRecv (some id) (.parsed c.authToken))
        ((s.emptied id c).answer write (.messages (c.welcomeQueue ++ c.msgs))).1
        ((s.emptied id c).answer write (.messages (c.welcomeQueue ++ c.msgs))).2

theorem consumeKp_eq_some {c c' : ClientInfo} {kp : KeyPackage}
    (h : c.consumeKp = some (kp, c')) : ∃ hash rest, rest ≠ [] ∧
      c.keyPackages = rest ++ [(hash, kp)] ∧ c' = { c with
        keyPackages := rest, reservedKeyPkgHash := insert hash c.reservedKeyPkgHash } := by
  unfold ClientInfo.consumeKp at h
  split_ifs at h with hlen
  cases hlast : c.keyPackages.getLast? with
  | none =>
    rw [hlast] at h
    cases h
  | some p =>
    rw [hlast] at h
    cases h
    have hkps := List.dropLast_append_getLast? p hlast
    refine ⟨p.1, c.keyPackages.dropLast, ?_, hkps.symm, rfl⟩
    intro hnil
    rw [hnil] at hkps
    rw [← hkps] at hlen
    exact hlen le_rfl

theorem advanceEpoch_eq_none {s : DsData} {isHandshake : Bool} {epoch : ℕ} {groupId : Bytes} :
    s.advanceEpoch isHandshake epoch groupId = none ↔
      isHandshake = true ∧ ∃ e, s.groups.lookup groupId = some e ∧ epoch < e := by
  unfold advanceEpoch
  cases isHandshake with
  | false => simp
  | true => cases s.groups.lookup groupId <;> simp

theorem advanceEpoch_eq_some {s s' : DsData} {isHandshake : Bool} {epoch : ℕ} {groupId : Bytes}
    (h : s.advanceEpoch isHandshake epoch groupId = some s') :
    (isHandshake = false ∧ s' = s) ∨
      isHandshake = true ∧ (∀ e, s.groups.lookup groupId = some e → e ≤ epoch) ∧
        s' = { s with groups := s.groups.insert groupId epoch } := by
  unfold advanceEpoch at h
  cases isHandshake with
  | false => exact .inl ⟨rfl, (Option.some.inj h).symm⟩
  | true =>
    refine .inr ⟨rfl, ?_⟩
    cases hgroup : s.groups.lookup groupId with
    | none =>
      simp only [hgroup, if_true] at h
      exact ⟨nofun, (Option.some.inj h).symm⟩
    | some groupEpoch =>
      simp only [hgroup, if_true] at h
      split_ifs at h with hlt
      refine ⟨?_, (Option.some.inj h).symm⟩
      rintro e ⟨⟩
      exact not_lt.mp hlt

theorem frame_advanceEpoch {s s' : DsData} {isHandshake : Bool} {epoch : ℕ} {groupId : Bytes}
    (h : s.advanceEpoch isHandshake epoch groupId = some s') :
    s'.clients = s.clients ∧ s'.poisoned = s.poisoned := by
  rcases advanceEpoch_eq_some h with ⟨-, rfl⟩ | ⟨-, -, rfl⟩ <;> exact ⟨rfl, rfl⟩

section Outcomes

variable (write : DsResponse → Writing) (s : DsData)

theorem outcome_registerClient (body : Body (List (Bytes × KeyPackage))) (token : Bytes) :
    Outcome write s (.registerClient body token) (s.registerClient body token).1
      (s.registerClient body token).2 := by
  rcases body with - | - | - | ⟨first, rest⟩
  · exact .refused rfl
  · exact .refused rfl
  · exact .refused rfl
  · unfold registerClient
    dsimp only
    split_ifs with hpoisoned hknown
    · exact .dead hpoisoned
    · exact .refused rfl
    · exact .registered hknown

theorem outcome_reset (resetKey : Option Bytes) :
    Outcome write s (.reset resetKey) (s.reset resetKey).1 (s.reset resetKey).2 := by
  unfold reset
  split_ifs with hkey hpoisoned
  · exact .refused rfl
  · exact .dead hpoisoned
  · exact .cleared

theorem outcome_getKeyPackages (id : Option Bytes) :
    Outcome write s (.getKeyPackages id) (s.getKeyPackages write id).1
      (s.getKeyPackages write id).2 := by
  unfold getKeyPackages
  split_ifs with hpoisoned
  · exact .dead hpoisoned
  · cases id with
    | none => exact .refused rfl
    | some id =>
      dsimp only
      cases hlookup : s.clients.lookup id with
      | none => exact .refused rfl
      | some c => exact .listed (.keyPackages hlookup)

theorem outcome_publishKeyPackages (id : Option Bytes)
    (body : Body (Bytes × List (Bytes × KeyPackage))) :
    Outcome write s (.publishKeyPackages id body) (s.publishKeyPackages id body).1
      (s.publishKeyPackages id body).2 := by
  unfold publishKeyPackages
  cases body with
  | broken => exact .refused rfl
  | malformed =>
    dsimp only
    split_ifs with hpoisoned
    · exact .dead hpoisoned
    · cases id with
      | none => exact .refused rfl
      | some id =>
        dsimp only
        cases s.clients.lookup id <;> exact .refused rfl
  | parsed req =>
    dsimp only
    split_ifs with hpoisoned
    · exact .dead hpoisoned
    · cases id with
      | none => exact .refused rfl
      | some id =>
        dsimp only
        cases hlookup : s.clients.lookup id with
        | none => exact .refused rfl
        | some c =>
          dsimp only
          split_ifs with htoken
          · exact .refused rfl
          · obtain ⟨token, kps⟩ := req
            obtain rfl : c.authToken = token := not_not.mp htoken
            exact .published hlookup

theorem outcome_consumeKeyPackage (id : Option Bytes) :
    Outcome write s (.consumeKeyPackage id) (s.consumeKeyPackage id).1
      (s.consumeKeyPackage id).2 := by
  unfold consumeKeyPackage
  split_ifs with hpoisoned
  · exact .dead hpoisoned
  · cases id with
    | none => exact .refused rfl
    | some id =>
      dsimp only
      cases hlookup : s.clients.lookup id with
      | none => exact .refused rfl
      | some c =>
        dsimp only
        cases hconsume : c.consumeKp with
        | none => exact .refused rfl
        | some p =>
          obtain ⟨kp, c'⟩ := p
          obtain ⟨hash, rest, hrest, hkps, rfl⟩ := consumeKp_eq_some hconsume
          exact .consumed hlookup hrest hkps

theorem outcome_sendWelcome (body : Body MlsMessage) (order : List Bytes) :
    Outcome write s (.sendWelcome body order) (s.sendWelcome body order).1
      (s.sendWelcome body order).2 := by
  unfold sendWelcome
  cases body with
  | broken => exact .refused rfl
  | malformed => exact .refused rfl
  | parsed msg =>
    dsimp only
    cases hcontent : msg.content with
    | welcome secrets =>
      dsimp only
      by_cases hpoisoned : s.poisoned = true
      · rw [if_pos hpoisoned]
        exact .dead hpoisoned
      · rw [if_neg hpoisoned]
        exact .welcomed hcontent
    | protocol _ _ _ => exact .refused rfl
    | other => exact .refused rfl

theorem outcome_msgSend (body : Body (MlsMessage × List Bytes)) :
    Outcome write s (.msgSend body) (s.msgSend body).1 (s.msgSend body).2 := by
  unfold msgSend
  cases body with
  | broken => exact .refused rfl
  | malformed => exact .refused rfl
  | parsed req =>
    obtain ⟨msg, recipients⟩ := req
    dsimp only
    split_ifs with hpoisoned
    · exact .dead hpoisoned
    · cases hcontent : msg.content with
      | welcome secrets => exact .poisoned (by simp [MlsMessage.isProtocol, hcontent])
      | other => exact .poisoned (by simp [MlsMessage.isProtocol, hcontent])
      | protocol isHandshake epoch groupId =>
        dsimp only
        cases hepoch : s.advanceEpoch isHandshake epoch groupId with
        | none => exact .refused rfl
        | some s' =>
          have hclients := (frame_advanceEpoch hepoch).1
          dsimp only
          rw [hclients]
          exact .sent hcontent hepoch

theorem outcome_msgRecv (id : Option Bytes) (body : Body Bytes) :
    Outcome write s (.msgRecv id body) (s.msgRecv write id body).1
      (s.msgRecv write id body).2 := by
  unfold msgRecv
  cases body with
  | broken => exact .refused rfl
  | malformed =>
    dsimp only
    split_ifs with hpoisoned
    · exact .dead hpoisoned
    · cases id with
      | none => exact .refused rfl
      | some id =>
        dsimp only
        cases s.clients.lookup id <;> exact .refused rfl
  | parsed token =>
    dsimp only
    split_ifs with hpoisoned
    · exact .dead hpoisoned
    · cases id with
      | none => exact .refused rfl
      | some id =>
        dsimp only
        cases hlookup : s.clients.lookup id with
        | none => exact .refused rfl
        | some c =>
          dsimp only
          by_cases htoken : token = c.authToken
          · rw [if_neg (not_not.mpr htoken)]
            obtain rfl := htoken
            exact .received hlookup (Bool.eq_false_iff.mpr hpoisoned)
          · rw [if_pos htoken]
            exact .refused rfl

theorem outcome_handle (r : DsRequest) :
    Outcome write s r (s.handle write r).1 (s.handle write r).2 := by
  cases r with
  | registerClient body token => exact outcome_registerClient write s body token
  | listClients =>
    unfold handle listClients
    dsimp only
    split_ifs with hpoisoned
    · exact .dead hpoisoned
    · exact .listed .clients
  | reset resetKey => exact outcome_reset write s resetKey
  | getKeyPackages id => exact outcome_getKeyPackages write s id
  | publishKeyPackages id body => exact outcome_publishKeyPackages write s id body
  | consumeKeyPackage id => exact outcome_consumeKeyPackage write s id
  | sendWelcome body order => exact outcome_sendWelcome write s body order
  | msgSend body => exact outcome_msgSend write s body
  | msgRecv id body => exact outcome_msgRecv write s id body

end Outcomes

end DsData

/-! ## Life and death of the service -/

namespace DsData

variable {write : DsResponse → Writing} {s : DsData}

variable (write)

end DsData

def toyWrite : DsResponse → Writing
  | .messages out => if out.length ≤ 1 then .written else .panicked
  | _ => .written

namespace DsData

def acceptedEpoch (groupId : Bytes) (e : Exchange DsData DsRequest DsResponse) : Option ℕ :=
  match e.request with
  | .msgSend (.parsed (msg, _)) =>
    match msg.content with
    | .protocol true epoch g =>
      if g = groupId ∧ (e.response = .ok ∨ e.response = .notFound) then some epoch else none
    | _ => none
  | _ => none

theorem pushAll_fst (msg : MlsMessage) (clients : Clients) (recipients : List Bytes) :
    (pushAll msg clients recipients).1 = .ok ∨ (pushAll msg clients recipients).1 = .notFound := by
  induction recipients generalizing clients with
  | nil => exact .inl rfl
  | cons recipient recipients ih =>
    unfold pushAll
    cases clients.lookup recipient with
    | none => exact .inr rfl
    | some c => exact ih _

/-- The service knows the epoch of the last handshake message of a group, and none before it was
later. -/
structure KnowsEpoch (groupId : Bytes) (epochs : List ℕ) (s : DsData) : Prop where
  last : s.groups.lookup groupId = epochs.getLast?
  sorted : epochs.Pairwise (· ≤ ·)

variable {write : DsResponse → Writing} {s s' : DsData} {groupId : Bytes} {epochs : List ℕ}
  {r : DsRequest} {o : DsResponse}

theorem KnowsEpoch.le_last (h : KnowsEpoch groupId epochs s) {e last : ℕ} (he : e ∈ epochs)
    (hlast : s.groups.lookup groupId = some last) : e ≤ last := by
  obtain ⟨init, rfl⟩ := List.getLast?_eq_some_iff.mp (h.last.symm.trans hlast)
  rcases List.mem_append.mp he with he | he
  · exact (List.pairwise_append.mp h.sorted).2.2 e he last (List.mem_singleton_self last)
  · exact (List.mem_singleton.mp he).le

theorem acceptedEpoch_of_refused
    (h : ∀ msg recipients, r = .msgSend (.parsed (msg, recipients)) → o ≠ .ok ∧ o ≠ .notFound) :
    acceptedEpoch groupId ⟨s, r, o⟩ = none := by
  unfold acceptedEpoch
  dsimp only
  split
  · rename_i msg recipients
    obtain ⟨hok, hnotFound⟩ := h msg recipients rfl
    split
    · rw [if_neg]
      rintro ⟨-, rfl | rfl⟩
      · exact hok rfl
      · exact hnotFound rfl
    · rfl
  · rfl

theorem KnowsEpoch.concat (h : KnowsEpoch groupId epochs s) {epoch : ℕ}
    (hepoch : ∀ e, s.groups.lookup groupId = some e → e ≤ epoch)
    (hs' : s'.groups.lookup groupId = some epoch) : KnowsEpoch groupId (epochs ++ [epoch]) s' := by
  refine ⟨?_, ?_⟩
  · rw [hs', List.getLast?_append, List.getLast?_singleton, Option.some_or]
  · refine List.pairwise_append.mpr ⟨h.sorted, List.pairwise_singleton _ _, ?_⟩
    intro e he e' he'
    rw [List.mem_singleton.mp he']
    cases hlast : s.groups.lookup groupId with
    | none =>
      rw [List.getLast?_eq_none_iff.mp (h.last.symm.trans hlast)] at he
      cases he
    | some last => exact (h.le_last he hlast).trans (hepoch last hlast)

theorem KnowsEpoch.unchanged (h : KnowsEpoch groupId epochs s)
    (hs' : s'.groups.lookup groupId = s.groups.lookup groupId)
    (hnone : acceptedEpoch groupId ⟨s, r, o⟩ = none) :
    KnowsEpoch groupId (epochs ++ (acceptedEpoch groupId ⟨s, r, o⟩).toList) s' := by
  rw [hnone, Option.toList_none, List.append_nil]
  exact ⟨hs'.trans h.last, h.sorted⟩

theorem KnowsEpoch.step (h : KnowsEpoch groupId epochs s) (hreset : ∀ key, r ≠ .reset key)
    (houtcome : Outcome write s r o s') :
    KnowsEpoch groupId (epochs ++ (acceptedEpoch groupId ⟨s, r, o⟩).toList) s' := by
  cases houtcome with
  | dead _ => exact h.unchanged rfl (acceptedEpoch_of_refused fun _ _ _ => ⟨nofun, nofun⟩)
  | refused hidle =>
    refine h.unchanged rfl (acceptedEpoch_of_refused ?_)
    rintro msg recipients rfl
    constructor
    · rintro rfl
      cases hidle
    · rintro rfl
      cases hidle
  | cleared => exact absurd rfl (hreset _)
  | poisoned _ => exact h.unchanged rfl (acceptedEpoch_of_refused fun _ _ _ => ⟨nofun, nofun⟩)
  | @sent msg recipients isHandshake epoch g t hcontent hepoch =>
    rcases advanceEpoch_eq_some hepoch with ⟨rfl, rfl⟩ | ⟨rfl, hle, rfl⟩
    · refine h.unchanged rfl ?_
      simp only [acceptedEpoch, hcontent]
    · -- the epoch moves only with a handshake message of this group
      by_cases hg : g = groupId
      · subst hg
        have hsome : acceptedEpoch g ⟨s, .msgSend (.parsed (msg, recipients)),
            (pushAll msg s.clients recipients).1⟩ = some epoch := by
          simp only [acceptedEpoch, hcontent, true_and]
          exact if_pos (pushAll_fst msg s.clients recipients)
        rw [hsome]
        exact h.concat hle (AList.lookup_insert _)
      · refine h.unchanged (AList.lookup_insert_ne (Ne.symm hg)) ?_
        simp only [acceptedEpoch, hcontent]
        exact if_neg fun hsame => hg hsame.1
  | registered _ => exact h.unchanged rfl rfl
  | published _ => exact h.unchanged rfl rfl
  | consumed _ _ _ => exact h.unchanged rfl rfl
  | welcomed _ => exact h.unchanged rfl rfl
  | received _ _ => exact h.unchanged (by rw [answer_groups]; rfl) rfl
  | listed hlisted =>
    refine h.unchanged (by rw [answer_groups]) ?_
    cases hlisted <;> rfl

theorem knowsEpoch_after (write : DsResponse → Writing) {requests : List DsRequest}
    (hreset : ∀ key, .reset key ∉ requests) (groupId : Bytes) :
    KnowsEpoch groupId ((history (handle write) start requests).filterMap (acceptedEpoch groupId))
      (after (handle write) start requests) := by
  refine law_of_step (fun l s => KnowsEpoch groupId (l.filterMap (acceptedEpoch groupId)) s)
    ⟨rfl, List.Pairwise.nil⟩ ?_
  intro l s r hr h
  have hnext := h.step (fun key hkey => hreset key (hkey ▸ hr)) (outcome_handle write s r)
  rwa [List.filterMap_append, List.filterMap_cons, List.filterMap_nil] at *

theorem msgSend_eq_conflict {msg : MlsMessage} {recipients : List Bytes} {epoch : ℕ}
    (hmsg : msg.content = .protocol true epoch groupId) :
    (s.msgSend (.parsed (msg, recipients))).1 = .conflict ↔
      s.poisoned = false ∧ ∃ e, s.groups.lookup groupId = some e ∧ epoch < e := by
  unfold msgSend
  cases s.poisoned with
  | true => simp
  | false =>
    dsimp only
    rw [hmsg]
    cases hepoch : s.advanceEpoch true epoch groupId with
    | none =>
      have hlater := advanceEpoch_eq_none.mp hepoch
      simp [hepoch, hlater.2]
    | some t =>
      have hnot : ¬ ∃ e, s.groups.lookup groupId = some e ∧ epoch < e := by
        intro hlater
        rw [advanceEpoch_eq_none.mpr ⟨rfl, hlater⟩] at hepoch
        cases hepoch
      rcases pushAll_fst msg t.clients recipients with hpush | hpush <;>
        simp [hepoch, hpush, hnot]

end DsData

/-- The epochs of the handshake messages that the service lets through for a group never go
back. A handshake message is refused exactly if a later epoch was let through before; one of the
same epoch is not. -/
theorem handshake_epochs_never_decrease (write : DsResponse → Writing) {requests : List DsRequest}
    (hreset : ∀ key, .reset key ∉ requests) (groupId : Bytes) :
    ((history (DsData.handle write) DsData.start requests).filterMap
        (DsData.acceptedEpoch groupId)).Pairwise (· ≤ ·) ∧
      ∀ msg recipients epoch, msg.content = .protocol true epoch groupId →
        (((after (DsData.handle write) DsData.start requests).handle write
            (.msgSend (.parsed (msg, recipients)))).1 = .conflict ↔
          (after (DsData.handle write) DsData.start requests).poisoned = false ∧
            ∃ e ∈ (history (DsData.handle write) DsData.start requests).filterMap
              (DsData.acceptedEpoch groupId), epoch < e) := by
  have h := DsData.knowsEpoch_after write hreset groupId
  refine ⟨h.sorted, ?_⟩
  intro msg recipients epoch hmsg
  refine (DsData.msgSend_eq_conflict hmsg).trans (and_congr_right fun _ => ?_)
  constructor
  · rintro ⟨e, hlast, hlt⟩
    exact ⟨e, List.mem_of_getLast? (h.last.symm.trans hlast), hlt⟩
  · rintro ⟨e, he, hlt⟩
    obtain ⟨last, hlast⟩ := Option.ne_none_iff_exists'.mp
      (fun hnone => List.ne_nil_of_mem he (List.getLast?_eq_none_iff.mp hnone))
    have hlast := h.last.trans hlast
    exact ⟨last, hlast, hlt.trans_le (h.le_last he hlast)⟩

theorem handshake_epochs_never_decrease_resent :
    ∃ requests, ((after (DsData.handle fun _ => .written) DsData.start requests).handle
        (fun _ => .written) (.msgSend (.parsed (⟨.protocol true 2 [1], []⟩, [])))).1 = .conflict ∧
      ((history (DsData.handle fun _ => .written) DsData.start requests).filterMap
        (DsData.acceptedEpoch [1])).Pairwise (· ≤ ·) ∧
      (history (DsData.handle fun _ => .written) DsData.start requests).filterMap
        (DsData.acceptedEpoch [1]) = [3, 3] := by
  let requests : List DsRequest := [.msgSend (.parsed (⟨.protocol true 3 [1], []⟩, [])),
    .msgSend (.parsed (⟨.protocol true 3 [1], []⟩, []))]
  have hreset : ∀ key, .reset key ∉ requests := by simp [requests]
  obtain ⟨hsorted, hconflict⟩ := handshake_epochs_never_decrease (fun _ => .written) hreset [1]
  exact ⟨requests, (hconflict _ [] 2 rfl).mpr ⟨by decide +kernel, 3, by decide +kernel,
    by decide⟩, hsorted, by decide +kernel⟩

end SafeCast
