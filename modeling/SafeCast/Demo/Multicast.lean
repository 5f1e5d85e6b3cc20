import Mathlib.Data.List.ProdSigma
import SafeCast.Keying.Lockstep
import SafeCast.Keying.Mls
import SafeCast.Library.FirstCopies
import SafeCast.Srtp.Template
import SafeCast.Transport.Rtp

/-! # Audio over multicast

Each sender of the group protects its packets with the key exported for its SSRC. A receiver
keeps one session for each sender and tells them apart by the SSRC of a datagram. Datagrams
may be lost, overtaken, doubled and mixed with those of other groups.
-/

namespace SafeCast

open AntiReplay FirstCopies Runs

inductive ClientPanic where
  | malformedIdentity
  | createFailed (e : SrtpError)
  | protectFailed (e : SrtpError)
  | decryptionFailed (e : SrtpError)
  | invalidRtp
  | overflow
  deriving DecidableEq, Repr

def clientWindowSize : ℕ := 128

abbrev ClientSession := TemplateSession (windowBits clientWindowSize)

section Client

-- libsrtp's derivation of the session key and salt from the master key, the hash, and the
-- decoding of a credential to a text
variable (c : Crypto) (kdf : KeySalt → KeySalt) (hash : Bytes → UInt64)
  (fromUtf8Lossy : Bytes → Bytes)

def createSession (keyMaterial : KeySalt) : Except ClientPanic ClientSession :=
  match TemplateSession.create (kdf keyMaterial) clientWindowSize with
  | .error e => .error (.createFailed e)
  | .ok s => .ok s

def createSenderSession (keyMaterial : KeySalt) : Except ClientPanic ClientSession :=
  createSession kdf keyMaterial

def createReceiverSession (keyMaterial : KeySalt) : Except ClientPanic ClientSession :=
  createSession kdf keyMaterial

/-! ## Sending -/

def audioFrame (label : Bytes) (i : ℕ) : Bytes :=
  asciiBytes "Hello from " ++ label ++ asciiBytes " - audio frame " ++
    (Nat.toDigits 10 i).map fun ch => UInt8.ofNat ch.toNat

def audioPacket (label : Bytes) (ssrc : UInt32) (i : ℕ) : RtpPacket :=
  { payloadType := 111
    sequenceNumber := UInt16.ofNat i
    timestamp := UInt32.ofNat (i * 960)
    ssrc := ssrc
    payload := audioFrame label i }

def sendPacket (label : Bytes) (ssrc : UInt32) (s : ClientSession) (i : ℕ) :
    Except ClientPanic (Bytes × ClientSession) :=
  if 2 ^ 32 ≤ i * 960 then .error .overflow
  else
    match s.protect c (audioPacket label ssrc i).toBytes with
    | (.error e, _) => .error (.protectFailed e)
    | (.ok buf, s) => .ok (buf, s)

def sendSrtp (label : Bytes) (ssrc : UInt32) (keyMaterial : KeySalt) (numPackets : ℕ) :
    Except ClientPanic (List Bytes) :=
  match createSenderSession kdf keyMaterial with
  | .error p => .error p
  | .ok s => (run (sendPacket c label ssrc) s (List.range' 1 numPackets)).map Prod.fst

/-- A client in sender mode, once it has joined the group. -/
def runSender (group : MlsGroup) (identity : Bytes) (packets : ℕ) :
    Except ClientPanic (List Bytes) :=
  match parseCredentialIdentity identity with
  | none => .error .malformedIdentity
  | some (label, _) =>
    let ssrc := ssrcFromIdentity hash identity
    sendSrtp c kdf label ssrc (group.exportSrtpKeys ssrc) packets

/-! ## Receiving -/

abbrev ReceiverSessions := AList fun _ : ℕ => ClientSession

/-- The members with the role `sender`, in the order of the tree. -/
def senderIdentities : List Member → Except ClientPanic (List Bytes)
  | [] => .ok []
  | m :: ms =>
    let id := fromUtf8Lossy m.credential
    match parseCredentialIdentity id, senderIdentities ms with
    | none, _ => .error .malformedIdentity
    | some _, .error p => .error p
    | some (_, role), .ok ids => .ok (if role = asciiBytes "sender" then id :: ids else ids)

def receiverSessions (group : MlsGroup) : List Bytes → ReceiverSessions →
    Except ClientPanic ReceiverSessions
  | [], sessions => .ok sessions
  | identity :: ids, sessions =>
    let ssrc := ssrcFromIdentity hash identity
    match createReceiverSession kdf (group.exportSrtpKeys ssrc) with
    | .error p => .error p
    | .ok session => receiverSessions group ids (sessions.insert ssrc.toNat session)

/-- What the socket gives: a datagram, an error, or nothing for 30 seconds. -/
inductive SocketEvent where
  | datagram (d : Bytes)
  | error
  | timeout

def recvFrom (d : Bytes) : Bytes := d.take 2048

def recvPacket (sessions : ReceiverSessions) (pkt : Bytes) :
    Except ClientPanic (Option (ℕ × RtpPacket) × ReceiverSessions) :=
  if pkt.length < rtpHeaderLen then .ok (none, sessions)
  else
    let ssrc := ssrcOf pkt
    match sessions.lookup ssrc with
    | none => .ok (none, sessions)
    | some session =>
      match session.unprotect c pkt with
      | (.error e, session) =>
        if e = .replayFail then .ok (none, sessions.insert ssrc session)
        else .error (.decryptionFailed e)
      | (.ok plain, session) =>
        match RtpPacket.fromBytes plain with
        | none => .error .invalidRtp
        | some rtp => .ok (some (ssrc, rtp), sessions.insert ssrc session)

/-- `recv_srtp`: the packets shown until all expected ones have come. -/
def recvSrtp (expected : ℕ) : ℕ → ReceiverSessions → List SocketEvent →
    Except ClientPanic (List (ℕ × RtpPacket))
  | _, _, [] => .ok []
  | received, sessions, event :: events =>
    if expected ≤ received then .ok []
    else
      match event with
      | .error => .ok []
      | .timeout => .ok []
      | .datagram d =>
        match recvPacket c sessions (recvFrom d) with
        | .error p => .error p
        | .ok (none, sessions) => recvSrtp expected received sessions events
        | .ok (some shown, sessions) =>
          (recvSrtp expected (received + 1) sessions events).map (shown :: ·)

def runReceiver (group : MlsGroup) (packets : ℕ) (events : List SocketEvent) :
    Except ClientPanic (List (ℕ × RtpPacket)) :=
  match senderIdentities fromUtf8Lossy group.members with
  | .error p => .error p
  | .ok ids =>
    match receiverSessions kdf hash group ids ∅ with
    | .error p => .error p
    | .ok sessions =>
      if 2 ^ 32 ≤ ids.length * packets then .error .overflow
      else recvSrtp c (ids.length * packets) 0 sessions events

end Client

/-! ## One stream -/

section Stream

variable {w : ℕ} {c : Crypto} {ks : KeySalt} {ssrc i : ℕ} {packet out : Bytes}

/-- The datagram is the packet, protected at index `i`. -/
def SentAs (w : ℕ) (c : Crypto) (ks : KeySalt) (ssrc i : ℕ) (packet out : Bytes) : Prop :=
  ∃ s s' : SrtpStream w, s.ssrc = ssrc ∧ s.protect c ks packet = (.ok out, s') ∧
    (s.rdbx.estimateIndex (seqOf packet)).1 = i

/-- Packet `i` comes in time: it is in the replay window of what was heard, and not so far
ahead that its sequence number is ambiguous. -/
def InTime (w : ℕ) (heard : List ℕ) (i : ℕ) : Prop :=
  (∀ j ∈ heard, j < i + w) ∧ if heard = [] then i < 2 ^ 16 else ∃ j ∈ heard, i < j + 2 ^ 15

theorem top_mem {passed : List ℕ} (h : passed ≠ []) : top passed ∈ passed := by
  cases hmax : passed.max? with
  | none => exact absurd (List.max?_eq_none_iff.mp hmax) h
  | some m =>
    rw [top, hmax]
    exact List.max?_mem hmax

theorem InTime.top_lt {heard : List ℕ} (h : InTime w heard i) (hw : 0 < w) :
    top heard < i + w := by
  rcases eq_or_ne heard [] with rfl | hne
  · exact Nat.add_pos_right i hw
  · exact h.1 _ (top_mem hne)

theorem InTime.estimateIndex {heard : List ℕ} {r : Rdbx w} (h : InTime w heard i)
    (hw : w ≤ 2 ^ 15) (hpos : 0 < w) (hr : r.Remembers heard) (hi : i < 2 ^ 48) :
    r.estimateIndex (i % 2 ^ 16) = (i, (i : ℤ) - r.index) ∧ i < r.index + 2 ^ 16 := by
  have htop := h.top_lt hpos
  have hindex := hr.index
  have hnear : r.position (i % 2 ^ 16) = i ∧ i < r.index + 2 ^ 16 := by
    rcases eq_or_ne heard [] with rfl | hne
    · have hlt : i < 2 ^ 16 := by simpa using h.2
      refine ⟨?_, by omega⟩
      rw [Rdbx.position, hindex, Nat.mod_eq_of_lt hlt]
      exact SerialNumber.unwrap_zero (m := 2 ^ 15) hlt
    · obtain ⟨j, hj, hlt⟩ : ∃ j ∈ heard, i < j + 2 ^ 15 := by simpa [hne] using h.2
      have hle := le_top hj
      exact ⟨r.position_of_near (abs_lt.mpr ⟨by omega, by omega⟩), by omega⟩
  refine ⟨?_, hnear.2⟩
  rw [Rdbx.estimateIndex_eq _ (Nat.mod_lt _ (by decide)), hnear.1, Nat.mod_eq_of_lt hi]

/-- A session that has let the packets `heard` of a stream pass, after `used` datagrams. -/
structure Hears (ks : KeySalt) (ssrc : ℕ) (heard : List ℕ) (used : ℕ) (s : TemplateSession w) :
    Prop where
  keySalt : s.keySalt = ks
  remembers : (s.rdbx ssrc).Remembers heard
  lt : ∀ j ∈ heard, j < 2 ^ 48
  left : keyUsageLimit ≤ s.numLeft + used

theorem hears_create (w : ℕ) (ks : KeySalt) (ssrc : ℕ) :
    Hears ks ssrc [] 0 (⟨ks, keyUsageLimit, ∅⟩ : TemplateSession w) :=
  ⟨rfl, Rdbx.remembers_init w, by simp, le_rfl⟩

variable {heard : List ℕ} {used : ℕ} {s : TemplateSession w}

theorem Hears.updated {t : SrtpStream w} {s' : TemplateSession w} {heard' : List ℕ}
    (h : Hears ks ssrc heard used s) (hupdated : s.Updated t s') (ht : t.ssrc = ssrc)
    (hremembers : t.rdbx.Remembers heard') (hlt : ∀ j ∈ heard', j < 2 ^ 48)
    (hleft : s.numLeft ≤ t.numLeft + 1) : Hears ks ssrc heard' (used + 1) s' := by
  refine ⟨hupdated.keySalt.trans h.keySalt, ?_, hlt, ?_⟩
  · rw [hupdated.rdbx, if_pos ht.symm]
    exact hremembers
  · have := h.left
    rw [hupdated.numLeft]
    omega

theorem Hears.unprotect (hw : w ≤ 2 ^ 15) (hpos : 0 < w) (h : Hears ks ssrc heard used s)
    (hsent : SentAs w c ks ssrc i packet out) (hseq : seqOf packet = i % 2 ^ 16)
    (htime : InTime w heard i) (hi : i < 2 ^ 48) (hused : used + 1 < keyUsageLimit) :
    ∃ s', s.unprotect c out =
        (if i ∈ heard then .error .replayFail else .ok packet, s') ∧
      Hears ks ssrc (if i ∈ heard then heard else heard ++ [i]) (used + 1) s' := by
  obtain ⟨t, t', hssrc, hprotect, hindex⟩ := hsent
  have hout := SrtpStream.protectedAs_of_protect hprotect
  obtain ⟨hest, hnear⟩ := htime.estimateIndex hw hpos h.remembers hi
  have hcheck := h.remembers.check_eq i
  obtain ⟨hanswer, hupdated⟩ := TemplateSession.unprotect_eq hpos c s out
  rw [hout.ssrc, hssrc, h.keySalt] at hanswer hupdated
  rw [← hseq] at hest
  have hleft := h.left
  by_cases hseen : i ∈ heard
  · -- a second copy does not pass the replay check
    rw [rule, if_neg (not_le.mpr (htime.top_lt hpos)), if_pos hseen] at hcheck
    have hdrop : (s.stream ssrc).unprotect c ks out = _ :=
      SrtpStream.unprotect_of_check_error hout.length_lt hout.valid (hout.ssrc.trans hssrc)
        (by rw [hout.seq]; exact (congrArg _ (congrArg Prod.snd hest)).trans hcheck)
    rw [hdrop] at hanswer hupdated
    rw [if_pos hseen, if_pos hseen]
    exact ⟨_, Prod.ext hanswer rfl, h.updated hupdated rfl h.remembers h.lt (Nat.le_succ _)⟩
  · have hfresh : rule w heard i = .fresh := rule_eq_fresh.mpr ⟨htime.top_lt hpos, hseen⟩
    rw [hfresh] at hcheck
    have hleft' : 1 < (s.stream ssrc).numLeft := by
      change 1 < s.numLeft
      omega
    obtain ⟨hexpired, hnumLeft⟩ := SrtpStream.keyLimitUpdate_left hleft'
    have hopen : (s.stream ssrc).unprotect c ks out = _ :=
      SrtpStream.unprotect_protected hprotect hssrc.symm (by rw [hindex]; exact hest) hcheck
        hexpired
    rw [hopen] at hanswer hupdated
    rw [if_neg hseen, if_neg hseen]
    refine ⟨_, Prod.ext hanswer rfl, h.updated hupdated rfl ?_ ?_ hnumLeft⟩
    · have hindex := h.remembers.index
      exact h.remembers.addIndex hfresh hnear (by have := htime.top_lt hpos; omega)
    · intro j hj
      rcases List.mem_append.mp hj with hj | hj
      · exact h.lt j hj
      · exact List.mem_singleton.mp hj ▸ hi

end Stream

/-! ## The sender -/

section Sender

variable {c : Crypto} {kdf : KeySalt → KeySalt} {hash : Bytes → UInt64} {label : Bytes}
  {ssrc : UInt32} {ks : KeySalt} {s s' : ClientSession} {n i : ℕ} {out : Bytes}

theorem top_range' (n : ℕ) : top (List.range' 1 n) = n := by
  induction n with
  | zero => rfl
  | succ n ih =>
    rw [List.range'_1_concat, top_concat, ih]
    omega

theorem seqOf_audioPacket (label : Bytes) (ssrc : UInt32) (i : ℕ) :
    seqOf (audioPacket label ssrc i).toBytes = i % 2 ^ 16 := by
  rw [RtpPacket.seqOf_toBytes, audioPacket, UInt16.toNat_ofNat']

structure HasSent (ks : KeySalt) (ssrc n : ℕ) (s : ClientSession) : Prop where
  keySalt : s.keySalt = ks
  remembers : (s.rdbx ssrc).Remembers (List.range' 1 n)

theorem HasSent.sendPacket (h : HasSent ks ssrc.toNat n s)
    (hs : sendPacket c label ssrc s (n + 1) = .ok (out, s')) :
    SentAs (windowBits clientWindowSize) c ks ssrc.toNat (n + 1)
        (audioPacket label ssrc (n + 1)).toBytes out ∧
      (n + 1) * 960 < 2 ^ 32 ∧ HasSent ks ssrc.toNat (n + 1) s' := by
  unfold SafeCast.sendPacket at hs
  split_ifs at hs with hfits
  have hseq := seqOf_audioPacket label ssrc (n + 1)
  have hssrc : ssrcOf (audioPacket label ssrc (n + 1)).toBytes = ssrc.toNat :=
    RtpPacket.ssrcOf_toBytes _
  generalize (audioPacket label ssrc (n + 1)).toBytes = packet at *
  obtain ⟨hanswer, hupdated⟩ := s.protect_eq c packet
  rw [hssrc, h.keySalt] at hanswer hupdated
  have hindex := h.remembers.index
  rw [top_range'] at hindex
  -- the numbers start at 1, so each is one ahead of the highest index
  have hest : (s.rdbx ssrc.toNat).estimateIndex (seqOf packet) =
      (n + 1, ((n + 1 : ℕ) : ℤ) - (s.rdbx ssrc.toNat).index) := by
    rw [hseq, Rdbx.estimateIndex_eq _ (Nat.mod_lt _ (by decide)),
      Rdbx.position_of_near _ (abs_lt.mpr ⟨by omega, by omega⟩), Nat.mod_eq_of_lt (by omega)]
  generalize hr : s.protect c packet = r at hs hanswer hupdated
  obtain ⟨res, s₁⟩ := r
  cases res with
  | error e => cases hs
  | ok buf =>
    obtain ⟨rfl, rfl⟩ := Prod.mk.inj (Except.ok.inj hs)
    have hprotect : (s.stream ssrc.toNat).protect c ks packet =
        (.ok buf, ((s.stream ssrc.toNat).protect c ks packet).2) := Prod.ext hanswer.symm rfl
    refine ⟨⟨s.stream ssrc.toNat, _, rfl, hprotect, congrArg Prod.fst hest⟩, by omega, ?_⟩
    rcases SrtpStream.protect_cases hprotect with ⟨-, -, hnext⟩ | ⟨e, herr, -⟩
    · refine ⟨hupdated.keySalt.trans h.keySalt, ?_⟩
      have hahead : rule (windowBits clientWindowSize) (List.range' 1 n) (n + 1) = .fresh :=
        rule_of_top_lt (by rw [top_range']; exact n.lt_succ_self)
      have hadd := h.remembers.addIndex hahead (by omega) (by omega)
      have howner : ((s.stream ssrc.toNat).protect c ks packet).2.ssrc = ssrc.toNat := by
        rw [hnext]
        rfl
      have hrdbx : ((s.stream ssrc.toNat).protect c ks packet).2.rdbx =
          (s.rdbx ssrc.toNat).addIndex ((s.rdbx ssrc.toNat).estimateIndex (seqOf packet)).2 := by
        rw [hnext]
        rfl
      rw [hupdated.rdbx, howner, if_pos rfl, hrdbx, hest, List.range'_1_concat, Nat.add_comm 1 n]
      exact hadd
    · cases herr

theorem HasSent.run {m : ℕ} {outs : List Bytes} (h : HasSent ks ssrc.toNat n s)
    (hrun : run (SafeCast.sendPacket c label ssrc) s (List.range' (n + 1) m) = .ok (outs, s')) :
    ∀ j < m, SentAs (windowBits clientWindowSize) c ks ssrc.toNat (n + 1 + j)
        (audioPacket label ssrc (n + 1 + j)).toBytes (outs.getD j []) ∧
      (n + 1 + j) * 960 < 2 ^ 32 := by
  induction m generalizing n s outs with
  | zero => exact fun j hj => absurd hj (Nat.not_lt_zero j)
  | succ m ih =>
    rw [List.range'_succ] at hrun
    obtain ⟨out, s₁, rest, hstep, hrest, rfl⟩ := run_cons_ok_iff.mp hrun
    obtain ⟨hsent, hfits, h₁⟩ := h.sendPacket hstep
    rintro (- | j) hj
    · exact ⟨hsent, hfits⟩
    · have hnext := ih h₁ hrest j (by omega)
      rw [show n + 1 + 1 + j = n + 1 + (j + 1) by omega] at hnext
      exact hnext

theorem createSession_eq (kdf : KeySalt → KeySalt) (keyMaterial : KeySalt) :
    createSession kdf keyMaterial = .ok ⟨kdf keyMaterial, keyUsageLimit, ∅⟩ := rfl

theorem sendSrtp_ok {keyMaterial : KeySalt} {numPackets : ℕ} {sent : List Bytes}
    (h : sendSrtp c kdf label ssrc keyMaterial numPackets = .ok sent) :
    ∃ s', run (sendPacket c label ssrc) ⟨kdf keyMaterial, keyUsageLimit, ∅⟩
      (List.range' 1 numPackets) = .ok (sent, s') := by
  unfold sendSrtp createSenderSession at h
  rw [createSession_eq] at h
  dsimp only at h
  cases hrun : run (sendPacket c label ssrc) ⟨kdf keyMaterial, keyUsageLimit, ∅⟩
      (List.range' 1 numPackets) with
  | error p =>
    rw [hrun] at h
    cases h
  | ok r =>
    rw [hrun] at h
    cases h
    exact ⟨r.2, rfl⟩

theorem sentAs_of_runSender {group : MlsGroup} {identity : Bytes} {packets : ℕ} {sent : List Bytes}
    (h : runSender c kdf hash group identity packets = .ok sent) :
    ∃ label role, parseCredentialIdentity identity = some (label, role) ∧
      ∀ i, 1 ≤ i → i ≤ packets →
        SentAs (windowBits clientWindowSize) c
          (kdf (group.exportSrtpKeys (ssrcFromIdentity hash identity)))
          (ssrcFromIdentity hash identity).toNat i
          (audioPacket label (ssrcFromIdentity hash identity) i).toBytes (sent.getD (i - 1) []) ∧
        i * 960 < 2 ^ 32 := by
  unfold runSender at h
  cases hparse : parseCredentialIdentity identity with
  | none =>
    rw [hparse] at h
    cases h
  | some p =>
    obtain ⟨label, role⟩ := p
    rw [hparse] at h
    refine ⟨label, role, rfl, ?_⟩
    intro i hfirst hlast
    dsimp only at h
    obtain ⟨s', hrun⟩ := sendSrtp_ok h
    have hfresh : HasSent (kdf (group.exportSrtpKeys (ssrcFromIdentity hash identity)))
        (ssrcFromIdentity hash identity).toNat 0 ⟨_, keyUsageLimit, ∅⟩ :=
      ⟨rfl, Rdbx.remembers_init _⟩
    have hsent := hfresh.run hrun (i - 1) (by omega)
    rw [show 0 + 1 + (i - 1) = i by omega] at hsent
    exact hsent

end Sender

/-! ## The receiver -/

/-- What comes in at a receiver: a copy of packet `i` of a sender, or a datagram from elsewhere. -/
inductive Incoming where
  | copy (identity : Bytes) (i : ℕ)
  | noise (d : Bytes)

section Receiver

variable {c : Crypto} {kdf : KeySalt → KeySalt} {hash : Bytes → UInt64} {group : MlsGroup}
  {senders : List Bytes} {packets : ℕ}

def Incoming.event (sent : Bytes → List Bytes) : Incoming → SocketEvent
  | .copy identity i => .datagram ((sent identity).getD (i - 1) [])
  | .noise d => .datagram d

def copies : List Incoming → List (Bytes × ℕ)
  | [] => []
  | .copy identity i :: arrivals => (identity, i) :: copies arrivals
  | .noise _ :: arrivals => copies arrivals

def numbersOf (identity : Bytes) (l : List (Bytes × ℕ)) : List ℕ :=
  (l.filter (·.1 = identity)).map Prod.snd

def shown (hash : Bytes → UInt64) (p : Bytes × ℕ) : ℕ × RtpPacket :=
  let ssrc := ssrcFromIdentity hash p.1
  (ssrc.toNat, audioPacket ((parseCredentialIdentity p.1).elim [] Prod.fst) ssrc p.2)

/-- The arrivals at a receiver, as far as the network is concerned: copies may be lost, doubled
and overtaken within the replay window, and other datagrams are of other streams. -/
structure Arrives (hash : Bytes → UInt64) (senders : List Bytes) (packets : ℕ)
    (arrivals : List Incoming) : Prop where
  sent : ∀ identity i, .copy identity i ∈ arrivals → identity ∈ senders ∧ 1 ≤ i ∧ i ≤ packets
  noise : ∀ d, .noise d ∈ arrivals → (recvFrom d).length < rtpHeaderLen ∨
    ∀ identity ∈ senders, (ssrcFromIdentity hash identity).toNat ≠ ssrcOf (recvFrom d)
  inTime : ∀ past identity i, past ++ [.copy identity i] <+: arrivals →
    InTime (windowBits clientWindowSize) (numbersOf identity (copies past)) i

structure Sends (c : Crypto) (kdf : KeySalt → KeySalt) (hash : Bytes → UInt64) (group : MlsGroup)
    (senders : List Bytes) (packets : ℕ) (sent : Bytes → List Bytes) : Prop where
  runs : ∀ identity ∈ senders, runSender c kdf hash group identity packets = .ok (sent identity)
  fits : ∀ identity ∈ senders, ∀ d ∈ sent identity, d.length ≤ 2048

theorem copies_append (l m : List Incoming) : copies (l ++ m) = copies l ++ copies m := by
  induction l with
  | nil => rfl
  | cons a l ih => cases a <;> simp [copies, ih]

theorem mem_copies {identity : Bytes} {i : ℕ} {l : List Incoming} :
    (identity, i) ∈ copies l ↔ .copy identity i ∈ l := by
  induction l with
  | nil => simp [copies]
  | cons a l ih => cases a <;> simp [copies, ih]

theorem mem_numbersOf {identity : Bytes} {i : ℕ} {l : List (Bytes × ℕ)} :
    i ∈ numbersOf identity l ↔ (identity, i) ∈ l := by
  simp [numbersOf]

theorem numbersOf_concat (identity : Bytes) (l : List (Bytes × ℕ)) (p : Bytes × ℕ) :
    numbersOf identity (l ++ [p]) =
      numbersOf identity l ++ if p.1 = identity then [p.2] else [] := by
  unfold numbersOf
  split_ifs with h <;> simp [h]

theorem InTime.congr {w i : ℕ} {heard heard' : List ℕ} (h : InTime w heard i)
    (hmem : ∀ j, j ∈ heard' ↔ j ∈ heard) : InTime w heard' i := by
  have hnil : heard' = [] ↔ heard = [] := by
    simp only [List.eq_nil_iff_forall_not_mem, hmem]
  unfold InTime at *
  simpa only [hmem, hnil] using h

theorem arrives_of_few {arrivals : List Incoming} (hfew : packets ≤ windowBits clientWindowSize)
    (hsent : ∀ p ∈ copies arrivals, p.1 ∈ senders ∧ 1 ≤ p.2 ∧ p.2 ≤ packets)
    (hnoise : ∀ d, .noise d ∈ arrivals → (recvFrom d).length < rtpHeaderLen ∨
      ∀ identity ∈ senders, (ssrcFromIdentity hash identity).toNat ≠ ssrcOf (recvFrom d)) :
    Arrives hash senders packets arrivals := by
  have hw : windowBits clientWindowSize < 2 ^ 15 := by decide
  refine ⟨fun identity i hcopy => hsent _ (mem_copies.mpr hcopy), hnoise, ?_⟩
  rintro past identity i ⟨rest, rfl⟩
  obtain ⟨-, hfirst, hlast⟩ := hsent (identity, i) (mem_copies.mpr (by simp))
  refine ⟨?_, ?_⟩
  · intro j hj
    obtain ⟨-, -, hle⟩ := hsent (identity, j) (by
      rw [copies_append, copies_append]
      exact List.mem_append_left _ (List.mem_append_left _ (mem_numbersOf.mp hj)))
    omega
  · split_ifs with hnil
    · omega
    · obtain ⟨j, hj⟩ := List.exists_mem_of_ne_nil _ hnil
      exact ⟨j, hj, by omega⟩

theorem Hears.mono {w : ℕ} {ks : KeySalt} {ssrc used used' : ℕ} {heard : List ℕ}
    {s : TemplateSession w} (h : Hears ks ssrc heard used s) (hle : used ≤ used') :
    Hears ks ssrc heard used' s :=
  ⟨h.keySalt, h.remembers, h.lt, h.left.trans (Nat.add_le_add_left hle _)⟩

/-- The sessions of a receiver that has shown the packets `seen`, after `used` datagrams. -/
structure Attends (kdf : KeySalt → KeySalt) (hash : Bytes → UInt64) (group : MlsGroup)
    (senders : List Bytes) (seen : List (Bytes × ℕ)) (used : ℕ) (sessions : ReceiverSessions) :
    Prop where
  known : ∀ identity ∈ senders, ∃ s,
    sessions.lookup (ssrcFromIdentity hash identity).toNat = some s ∧
      Hears (kdf (group.exportSrtpKeys (ssrcFromIdentity hash identity)))
        (ssrcFromIdentity hash identity).toNat (numbersOf identity seen) used s
  unknown : ∀ ssrc, (∀ identity ∈ senders, (ssrcFromIdentity hash identity).toNat ≠ ssrc) →
    sessions.lookup ssrc = none

theorem receiverSessions_eq (kdf : KeySalt → KeySalt) (hash : Bytes → UInt64) (group : MlsGroup)
    (ids : List Bytes) (sessions : ReceiverSessions) :
    ∃ sessions', receiverSessions kdf hash group ids sessions = .ok sessions' ∧
      (∀ identity ∈ ids, sessions'.lookup (ssrcFromIdentity hash identity).toNat =
        some ⟨kdf (group.exportSrtpKeys (ssrcFromIdentity hash identity)), keyUsageLimit, ∅⟩) ∧
      ∀ ssrc, (∀ identity ∈ ids, (ssrcFromIdentity hash identity).toNat ≠ ssrc) →
        sessions'.lookup ssrc = sessions.lookup ssrc := by
  induction ids generalizing sessions with
  | nil => exact ⟨sessions, rfl, by simp, fun _ _ => rfl⟩
  | cons id ids ih =>
    obtain ⟨sessions', hrun, hin, hout⟩ := ih (sessions.insert (ssrcFromIdentity hash id).toNat
      ⟨kdf (group.exportSrtpKeys (ssrcFromIdentity hash id)), keyUsageLimit, ∅⟩)
    refine ⟨sessions', hrun, ?_, ?_⟩
    · intro identity hmem
      -- a later session for the same SSRC has the same key
      by_cases hlater : ∃ id' ∈ ids, (ssrcFromIdentity hash id').toNat =
          (ssrcFromIdentity hash identity).toNat
      · obtain ⟨id', hid', heq⟩ := hlater
        have hlookup := hin id' hid'
        rwa [UInt32.toNat_inj.mp heq] at hlookup
      · rcases List.mem_cons.mp hmem with rfl | hmem
        · rw [hout _ fun id' hid' heq => hlater ⟨id', hid', heq⟩, AList.lookup_insert]
        · exact absurd ⟨identity, hmem, rfl⟩ hlater
    · intro ssrc hne
      obtain ⟨hid, hids⟩ := List.forall_mem_cons.mp hne
      rw [hout ssrc hids, AList.lookup_insert_ne hid.symm]

theorem attends_start (kdf : KeySalt → KeySalt) (hash : Bytes → UInt64) (group : MlsGroup)
    (senders : List Bytes) :
    ∃ sessions, receiverSessions kdf hash group senders ∅ = .ok sessions ∧
      Attends kdf hash group senders [] 0 sessions := by
  obtain ⟨sessions, hrun, hin, hout⟩ := receiverSessions_eq kdf hash group senders ∅
  refine ⟨sessions, hrun, ?_, ?_⟩
  · intro identity hmem
    exact ⟨_, hin identity hmem, hears_create _ _ _⟩
  · intro ssrc hne
    rw [hout ssrc hne, AList.lookup_empty]

variable {seen : List (Bytes × ℕ)} {used : ℕ} {sessions : ReceiverSessions}

theorem Attends.mono {used' : ℕ} (h : Attends kdf hash group senders seen used sessions)
    (hle : used ≤ used') : Attends kdf hash group senders seen used' sessions := by
  refine ⟨?_, h.unknown⟩
  intro identity hmem
  obtain ⟨s, hlookup, hs⟩ := h.known identity hmem
  exact ⟨s, hlookup, hs.mono hle⟩

theorem Attends.noise (h : Attends kdf hash group senders seen used sessions) {pkt : Bytes}
    (hnoise : pkt.length < rtpHeaderLen ∨
      ∀ identity ∈ senders, (ssrcFromIdentity hash identity).toNat ≠ ssrcOf pkt) :
    recvPacket c sessions pkt = .ok (none, sessions) := by
  unfold recvPacket
  split_ifs with hlen
  · rfl
  · dsimp only
    rw [h.unknown _ (hnoise.resolve_left hlen)]

theorem Attends.insert (hssrc : (senders.map (ssrcFromIdentity hash)).Nodup)
    (h : Attends kdf hash group senders seen used sessions) {seen' : List (Bytes × ℕ)}
    {identity : Bytes} {s : ClientSession} (hmem : identity ∈ senders)
    (hs : Hears (kdf (group.exportSrtpKeys (ssrcFromIdentity hash identity)))
      (ssrcFromIdentity hash identity).toNat (numbersOf identity seen') (used + 1) s)
    (hseen : ∀ id ≠ identity, numbersOf id seen' = numbersOf id seen) :
    Attends kdf hash group senders seen' (used + 1)
      (sessions.insert (ssrcFromIdentity hash identity).toNat s) := by
  refine ⟨?_, ?_⟩
  · intro id hid
    by_cases heq : id = identity
    · subst heq
      exact ⟨s, AList.lookup_insert _, hs⟩
    · have hne : (ssrcFromIdentity hash id).toNat ≠ (ssrcFromIdentity hash identity).toNat := by
        intro hsame
        exact heq (List.inj_on_of_nodup_map hssrc hid hmem (UInt32.toNat_inj.mp hsame))
      obtain ⟨t, hlookup, ht⟩ := h.known id hid
      rw [hseen id heq]
      exact ⟨t, (AList.lookup_insert_ne hne).trans hlookup, ht.mono (Nat.le_succ used)⟩
  · intro ssrc hne
    rw [AList.lookup_insert_ne (hne identity hmem).symm]
    exact h.unknown ssrc hne

theorem fromBytes_audioPacket (label : Bytes) (ssrc : UInt32) (i : ℕ) :
    RtpPacket.fromBytes (audioPacket label ssrc i).toBytes = some (audioPacket label ssrc i) := by
  have htype : (111 : UInt8) &&& 0x7F = 111 := by decide
  simp [RtpPacket.fromBytes_toBytes, audioPacket, htype]

section Known

variable {pkt plain : Bytes} {s s' : ClientSession} {rtp : RtpPacket}

theorem recvPacket_of_replay (hlen : rtpHeaderLen ≤ pkt.length)
    (hlookup : sessions.lookup (ssrcOf pkt) = some s)
    (hdrop : s.unprotect c pkt = (.error .replayFail, s')) :
    recvPacket c sessions pkt = .ok (none, sessions.insert (ssrcOf pkt) s') := by
  unfold recvPacket
  rw [if_neg (not_lt.mpr hlen)]
  simp only [hlookup, hdrop, if_pos]

theorem recvPacket_of_open (hlen : rtpHeaderLen ≤ pkt.length)
    (hlookup : sessions.lookup (ssrcOf pkt) = some s)
    (hopen : s.unprotect c pkt = (.ok plain, s')) (hread : RtpPacket.fromBytes plain = some rtp) :
    recvPacket c sessions pkt =
      .ok (some (ssrcOf pkt, rtp), sessions.insert (ssrcOf pkt) s') := by
  unfold recvPacket
  rw [if_neg (not_lt.mpr hlen)]
  simp only [hlookup, hopen, hread]

end Known

theorem Sends.recvFrom {sent : Bytes → List Bytes} {identity : Bytes}
    (hsends : Sends c kdf hash group senders packets sent) (hmem : identity ∈ senders) (i : ℕ) :
    recvFrom ((sent identity).getD i []) = (sent identity).getD i [] := by
  refine List.take_of_length_le ?_
  rcases lt_or_ge i (sent identity).length with hlt | hge
  · rw [List.getD_eq_getElem _ _ hlt]
    exact hsends.fits identity hmem _ (List.getElem_mem hlt)
  · rw [List.getD_eq_default _ _ hge]
    exact Nat.zero_le _

theorem Attends.copy {sent : Bytes → List Bytes} {identity : Bytes} {i : ℕ}
    (hsends : Sends c kdf hash group senders packets sent)
    (hssrc : (senders.map (ssrcFromIdentity hash)).Nodup)
    (h : Attends kdf hash group senders seen used sessions) (hmem : identity ∈ senders)
    (hfirst : 1 ≤ i) (hlast : i ≤ packets)
    (htime : InTime (windowBits clientWindowSize) (numbersOf identity seen) i)
    (hused : used + 1 < keyUsageLimit) :
    ∃ sessions', recvPacket c sessions (recvFrom ((sent identity).getD (i - 1) [])) =
        .ok (if (identity, i) ∈ seen then none else some (shown hash (identity, i)), sessions') ∧
      Attends kdf hash group senders
        (if (identity, i) ∈ seen then seen else seen ++ [(identity, i)]) (used + 1) sessions' := by
  obtain ⟨label, role, hparse, hsent⟩ := sentAs_of_runSender (hsends.runs identity hmem)
  obtain ⟨hsentAs, hlt⟩ := hsent i hfirst hlast
  obtain ⟨s, hlookup, hs⟩ := h.known identity hmem
  rw [hsends.recvFrom hmem]
  generalize (sent identity).getD (i - 1) [] = out at hsentAs ⊢
  obtain ⟨t, t', ht, hprotect, -⟩ := id hsentAs
  have hout := SrtpStream.protectedAs_of_protect hprotect
  have hlen : rtpHeaderLen ≤ out.length := by
    rw [hout.length, RtpPacket.length_toBytes]
    omega
  obtain ⟨s', hopen, hs'⟩ := hs.unprotect (by decide) (windowBits_pos _) hsentAs
    (seqOf_audioPacket label _ i) htime (by omega) hused
  have hssrcOf : ssrcOf out = (ssrcFromIdentity hash identity).toNat := hout.ssrc.trans ht
  rw [← hssrcOf] at hlookup
  simp only [mem_numbersOf] at hopen hs'
  split_ifs at hopen hs' ⊢ with hseen
  · refine ⟨_, recvPacket_of_replay hlen hlookup hopen, ?_⟩
    rw [hssrcOf]
    exact h.insert hssrc hmem hs' fun id hne => rfl
  · have hshow := recvPacket_of_open hlen hlookup hopen (fromBytes_audioPacket _ _ _)
    rw [hssrcOf] at hshow
    rw [shown, hparse]
    refine ⟨_, hshow, h.insert hssrc hmem ?_ ?_⟩
    · rw [numbersOf_concat, if_pos rfl]
      exact hs'
    · intro id hne
      rw [numbersOf_concat, if_neg (Ne.symm hne), List.append_nil]

theorem Arrives.length_le {arrivals : List Incoming} (h : Arrives hash senders packets arrivals)
    (rest : List Incoming) (hseen : seen.Nodup) (hsub : ∀ p ∈ seen, p ∈ copies arrivals)
    (hrest : ∀ p ∈ copies rest, p ∈ copies arrivals) :
    seen.length + (beyond seen (copies rest)).length ≤ senders.length * packets := by
  have hall : ∀ p ∈ copies arrivals, p ∈ senders ×ˢ List.range' 1 packets := by
    rintro ⟨identity, i⟩ hp
    obtain ⟨hmem, hfirst, hlast⟩ := h.sent identity i (mem_copies.mp hp)
    exact List.mem_product.mpr ⟨hmem, List.mem_range'_1.mpr ⟨hfirst, by omega⟩⟩
  have hle := length_le_of_subset hseen (fun p hp => hall p (hsub p hp))
    (fun p hp => hall p (hrest p hp))
  rwa [List.length_product, List.length_range'] at hle

theorem Attends.recvSrtp {sent : Bytes → List Bytes} {arrivals : List Incoming}
    (hsends : Sends c kdf hash group senders packets sent)
    (hssrc : (senders.map (ssrcFromIdentity hash)).Nodup)
    (harrives : Arrives hash senders packets arrivals) (hlimit : arrivals.length < keyUsageLimit)
    (rest : List Incoming) {past : List Incoming} (hpast : past ++ rest = arrivals)
    (h : Attends kdf hash group senders seen past.length sessions) (hseen : seen.Nodup)
    (hmem : ∀ p, p ∈ seen ↔ p ∈ copies past) :
    recvSrtp c (senders.length * packets) seen.length sessions (rest.map (Incoming.event sent)) =
      .ok ((beyond seen (copies rest)).map (shown hash)) := by
  -- the induction is on what is still to come; `past` came before it
  induction rest generalizing past seen sessions with
  | nil => rfl
  | cons a rest ih =>
    have hcopies : copies arrivals = copies past ++ copies (a :: rest) := by
      rw [← hpast, copies_append]
    have hroom := harrives.length_le (a :: rest) hseen
      (fun p hp => by rw [hcopies]; exact List.mem_append_left _ ((hmem p).mp hp))
      (fun p hp => by rw [hcopies]; exact List.mem_append_right _ hp)
    have hnext : past ++ [a] ++ rest = arrivals := by
      rw [List.append_assoc]
      exact hpast
    have hlen : (past ++ [a]).length = past.length + 1 := List.length_append
    have hused : past.length + 1 < keyUsageLimit := by
      rw [← hnext, List.length_append, hlen] at hlimit
      omega
    unfold SafeCast.recvSrtp
    rw [List.map_cons]
    dsimp only
    split_ifs with hdone
    · -- all packets have been shown, so the rest are copies
      have hnone : beyond seen (copies (a :: rest)) = [] :=
        List.length_eq_zero_iff.mp (by omega)
      rw [hnone, List.map_nil]
    cases a with
    | noise d =>
      have hstep : recvPacket c sessions (recvFrom d) = _ :=
        h.noise (harrives.noise d (by rw [← hpast]; simp))
      have hrest := ih hnext (by rw [hlen]; exact h.mono (Nat.le_succ _)) hseen
        (fun p => by rw [hmem, copies_append, copies, copies, List.append_nil])
      dsimp only [Incoming.event]
      rw [hstep]
      exact hrest
    | copy identity i =>
      obtain ⟨hsender, hfirst, hlast⟩ := harrives.sent identity i (by rw [← hpast]; simp)
      have htime : InTime (windowBits clientWindowSize) (numbersOf identity seen) i :=
        (harrives.inTime past identity i ⟨rest, hnext⟩).congr
          fun j => by rw [mem_numbersOf, hmem, mem_numbersOf]
      obtain ⟨sessions', hstep, h'⟩ := h.copy hsends hssrc hsender hfirst hlast htime hused
      have hcopy : copies (past ++ [.copy identity i]) = copies past ++ [(identity, i)] :=
        copies_append _ _
      rw [← hlen] at h'
      dsimp only [Incoming.event]
      rw [hstep, copies]
      split_ifs at h' ⊢ with hold
      · rw [beyond_cons_of_mem hold]
        refine ih hnext h' hseen ?_
        intro p
        rw [hcopy, List.mem_append, List.mem_singleton, ← hmem]
        constructor
        · exact Or.inl
        · rintro (hp | rfl)
          · exact hp
          · exact hold
      · rw [beyond_cons_of_not_mem hold]
        have hfresh : (seen ++ [(identity, i)]).Nodup := by
          rw [List.nodup_append_comm]
          exact List.nodup_cons.mpr ⟨hold, hseen⟩
        have hrest := ih hnext h' hfresh fun p => by
          rw [hcopy, List.mem_append, List.mem_append, hmem]
        rw [List.length_append, List.length_singleton] at hrest
        dsimp only
        rw [hrest]
        rfl

end Receiver

/-- Audio over multicast is delivered exactly once: a receiver shows the first copy of every
packet that comes in, as the sender built it and in the order of arrival, and never aborts. -/
theorem multicast_shows_first_copies (c : Crypto) (kdf : KeySalt → KeySalt)
    (hash : Bytes → UInt64) (fromUtf8Lossy : Bytes → Bytes) (group : MlsGroup)
    {senders : List Bytes} {packets : ℕ} {sent : Bytes → List Bytes} {arrivals : List Incoming}
    (hsenders : senderIdentities fromUtf8Lossy group.members = .ok senders)
    (hssrc : (senders.map (ssrcFromIdentity hash)).Nodup)
    (hsends : Sends c kdf hash group senders packets sent)
    (hexpected : senders.length * packets < 2 ^ 32)
    (harrives : Arrives hash senders packets arrivals) (hlimit : arrivals.length < keyUsageLimit) :
    runReceiver c kdf hash fromUtf8Lossy group packets (arrivals.map (Incoming.event sent)) =
      .ok ((copies arrivals).eraseDups.map (shown hash)) := by
  obtain ⟨sessions, hsessions, hstart⟩ := attends_start kdf hash group senders
  have hrun := hstart.recvSrtp hsends hssrc harrives hlimit arrivals (List.nil_append _)
    List.nodup_nil
    fun p => by simp [copies]
  unfold runReceiver
  rw [hsenders]
  dsimp only
  rw [hsessions]
  dsimp only
  rw [if_neg (not_le.mpr hexpected), ← beyond_nil]
  exact hrun

theorem multicast_shows_first_copies_doubled :
    ∃ (group : MlsGroup) (sent : Bytes → List Bytes),
      senderIdentities id group.members = .ok [asciiBytes "a:sender", asciiBytes "b:sender"] ∧
      runReceiver Crypto.toy id (fun b => (b.headD 0).toUInt64) id group 2
          ([.copy (asciiBytes "a:sender") 2, .copy (asciiBytes "a:sender") 1, .noise [],
            .copy (asciiBytes "b:sender") 2, .copy (asciiBytes "a:sender") 2].map
              (Incoming.event sent)) =
        .ok ([(asciiBytes "a:sender", 2), (asciiBytes "a:sender", 1),
          (asciiBytes "b:sender", 2)].map (shown fun b => (b.headD 0).toUInt64)) := by
  let group : MlsGroup :=
    { members := [⟨asciiBytes "a:sender", []⟩, ⟨asciiBytes "c:receiver", []⟩,
        ⟨asciiBytes "b:sender", []⟩]
      exportSecret := fun _ context n => ByteArr.replicate n (context.getD 3 0) }
  let hash : Bytes → UInt64 := fun b => (b.headD 0).toUInt64
  let sent : Bytes → List Bytes := fun identity =>
    match runSender Crypto.toy id hash group identity 2 with
    | .ok l => l
    | .error _ => []
  let arrivals : List Incoming := [.copy (asciiBytes "a:sender") 2, .copy (asciiBytes "a:sender") 1,
    .noise [], .copy (asciiBytes "b:sender") 2, .copy (asciiBytes "a:sender") 2]
  have hsenders : senderIdentities id group.members =
      .ok [asciiBytes "a:sender", asciiBytes "b:sender"] := by decide +kernel
  have hsends : Sends Crypto.toy id hash group [asciiBytes "a:sender", asciiBytes "b:sender"] 2
      sent := ⟨by decide +kernel, by decide +kernel⟩
  have harrives : Arrives hash [asciiBytes "a:sender", asciiBytes "b:sender"] 2 arrivals :=
    arrives_of_few (by decide) (by decide +kernel) (by simp [arrivals, recvFrom, rtpHeaderLen])
  have hfirst : (copies arrivals).eraseDups = [(asciiBytes "a:sender", 2),
      (asciiBytes "a:sender", 1), (asciiBytes "b:sender", 2)] := by decide +kernel
  refine ⟨group, sent, hsenders, ?_⟩
  rw [← hfirst]
  exact multicast_shows_first_copies Crypto.toy id hash id group hsenders (by decide +kernel) hsends
    (by decide) harrives (by decide +kernel)

end SafeCast
