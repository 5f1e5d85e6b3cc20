import SafeCast.Srtp.Session

/-! # Keying granularities and the rekeying sender

A `RekeyingStream` keeps one key. It moves to the next generation when a packet
crosses the boundary its granularity sets, and protects the packet under the key
then installed.
-/

namespace SafeCast

inductive Granularity where
  | epochOnly
  | frame
  | packet
  | everyN (n : ℕ)
  deriving DecidableEq, Repr

def Granularity.Valid : Granularity → Prop
  | .everyN n => 1 ≤ n
  | _ => True

def senderWindowSize : ℕ := 128

structure RekeyingStream where
  session : Session (SrtpStream (windowBits senderWindowSize))
  ratchet : StreamRatchet
  granularity : Granularity
  installedGen : ℕ
  lastTs : Option ℕ
  started : Bool
  packetCount : ℕ

namespace RekeyingStream

def installNextGeneration (c : Crypto) (s : RekeyingStream) : RekeyingStream :=
  let ((g, keySalt), ratchet) := s.ratchet.nextKeySalt c
  { s with session := s.session.inplaceRekey keySalt, ratchet := ratchet, installedGen := g }

/-- A stream whose first packet goes out under the ratchet's current generation. -/
def new (c : Crypto) (throwaway : KeySalt) (granularity : Granularity) (ssrc : ℕ)
    (ratchet : StreamRatchet) : Except Panic RekeyingStream :=
  match SrtpStream.addStream ssrc senderWindowSize with
  | .error e => .error (.addStreamFailed e)
  | .ok stream =>
    .ok (installNextGeneration c
      { session := ⟨throwaway, stream⟩, ratchet := ratchet, granularity := granularity,
        installedGen := 0, lastTs := none, started := false, packetCount := 0 })

def crossedBoundary (s : RekeyingStream) (ts : ℕ) : Except Panic Bool :=
  match s.granularity with
  | .epochOnly => .ok false
  | .packet => .ok s.started
  | .frame => .ok (s.started && s.lastTs != some ts)
  | .everyN n =>
    if s.started then
      if n = 0 then .error .divisionByZero else .ok (s.packetCount % n == 0)
    else .ok false

def advanceFor (c : Crypto) (s : RekeyingStream) (ts : ℕ) : Except Panic RekeyingStream :=
  match s.crossedBoundary ts with
  | .error p => .error p
  | .ok crossed =>
    let s := if crossed then s.installNextGeneration c else s
    .ok { s with lastTs := some ts, started := true, packetCount := s.packetCount + 1 }

def protect (c : Crypto) (s : RekeyingStream) (packet : Bytes) :
    Except Panic (Except SrtpError Bytes × RekeyingStream) :=
  if packet.length < rtpHeaderLen then .error .shortPacket
  else
    match s.advanceFor c (timestampOf packet) with
    | .error p => .error p
    | .ok s =>
      let r := s.session.stream.protect c s.session.keySalt packet
      .ok (r.1, { s with session := { s.session with stream := r.2 } })

/-- The receiving side of a stream that is delivered in order. The key moves on before the
packet has authenticated. -/
def unprotect (c : Crypto) (s : RekeyingStream) (packet : Bytes) :
    Except Panic (Except SrtpError Bytes × RekeyingStream) :=
  if packet.length < rtpHeaderLen then .error .shortPacket
  else
    match s.advanceFor c (timestampOf packet) with
    | .error p => .error p
    | .ok s =>
      let r := s.session.stream.unprotect c s.session.keySalt packet
      .ok (r.1, { s with session := { s.session with stream := r.2 } })

end RekeyingStream

end SafeCast
