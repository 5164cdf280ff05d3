import LiveMedia.Message.Fetch

/-!
# Control messages in their envelopes

A control message travels as its ID, the size of its body in two bytes, and the body. Reading takes
the whole envelope before it looks at the body, so a message that is unknown or malformed can be
skipped. A body has to be used up exactly: one that ends too early lacks data, one that goes on is
too long.
-/

namespace LiveMedia.Message

open LiveMedia.Wire

-- ── envelopes ───────────────────────────────────────────────────────

/-- A message that is not parsed yet. -/
structure Envelope where
  id : Nat
  body : Bytes
deriving DecidableEq, Repr

namespace Envelope

/-- The largest body. -/
def bodyLimit : Nat := 65535

/-- A body above the limit has no size in two bytes. -/
def encode (e : Envelope) : Encoded :=
  if e.body.length ≤ bodyLimit then do
    let id ← encodeCompact e.id
    let size ← encodeWord (UInt16.ofNat e.body.length)
    return id ++ (size ++ e.body)
  else .error (.tooLarge e.body.length)

/-- Reads the ID, the size and as many bytes, whatever they are. -/
def decode : Decoder Envelope := do
  let id ← decodeCompact
  let size ← decodeWord
  let body ← Decoder.take size.toNat
  pure ⟨id, body⟩

def codec : Codec Envelope := ⟨encode, decode⟩

end Envelope

-- ── kinds of messages ───────────────────────────────────────────────

/-- How one kind of message fills its envelope. -/
structure MessageForm (α : Type) where
  id : Nat
  encodeBody : α → Encoded
  decodeBody : Decoder α

namespace MessageForm

variable {α β : Type}

/-- Reads a body to its end. -/
def parseBody (f : MessageForm α) (body : Bytes) : Except DecodeError α :=
  match f.decodeBody body with
  | (.ok a, []) => .ok a
  | (.ok _, _ :: _) => .error .long
  | (.error .short, _) => .error .expectedData
  | (.error e, _) => .error e

/-- Writes the body and puts the envelope around it. -/
def encode (f : MessageForm α) (a : α) : Encoded := do
  let body ← f.encodeBody a
  Envelope.encode ⟨f.id, body⟩

/-- Reads an envelope and then its body; another ID is refused. -/
def decode (f : MessageForm α) : Decoder α := do
  let e ← Envelope.decode
  if e.id = f.id then
    match f.parseBody e.body with
    | .ok a => pure a
    | .error err => .fail err
  else .fail (.unknownType e.id)

def codec (f : MessageForm α) : Codec α := ⟨f.encode, f.decode⟩

end MessageForm

def Fetch.form : MessageForm Fetch := ⟨0x16, encodeBody, decodeBody⟩

def FetchCancel.form : MessageForm FetchCancel := ⟨0x17, encodeBody, decodeBody⟩

def FetchOk.form : MessageForm FetchOk := ⟨0x18, encodeBody, decodeBody⟩

def FetchError.form : MessageForm FetchError := ⟨0x19, encodeBody, decodeBody⟩

def MaxRequestId.form : MessageForm MaxRequestId := ⟨0x15, encodeBody, decodeBody⟩

def RequestsBlocked.form : MessageForm RequestsBlocked := ⟨0x1a, encodeBody, decodeBody⟩

-- ── any message ─────────────────────────────────────────────────────

/-- A message of one of the known kinds. -/
inductive ControlMessage where
  | fetch (m : Fetch)
  | fetchCancel (m : FetchCancel)
  | fetchOk (m : FetchOk)
  | fetchError (m : FetchError)
  | maxRequestId (m : MaxRequestId)
  | requestsBlocked (m : RequestsBlocked)
deriving DecidableEq, Repr

/-- Parses the body by the kind that the ID names. -/
def Envelope.parse (e : Envelope) : Except DecodeError ControlMessage :=
  if e.id = Fetch.form.id then (Fetch.form.parseBody e.body).map .fetch
  else if e.id = FetchCancel.form.id then (FetchCancel.form.parseBody e.body).map .fetchCancel
  else if e.id = FetchOk.form.id then (FetchOk.form.parseBody e.body).map .fetchOk
  else if e.id = FetchError.form.id then (FetchError.form.parseBody e.body).map .fetchError
  else if e.id = MaxRequestId.form.id then (MaxRequestId.form.parseBody e.body).map .maxRequestId
  else if e.id = RequestsBlocked.form.id then
    (RequestsBlocked.form.parseBody e.body).map .requestsBlocked
  else .error (.unknownType e.id)

namespace ControlMessage

/-- The ID of the kind. -/
def id : ControlMessage → Nat
  | fetch _ => Fetch.form.id
  | fetchCancel _ => FetchCancel.form.id
  | fetchOk _ => FetchOk.form.id
  | fetchError _ => FetchError.form.id
  | maxRequestId _ => MaxRequestId.form.id
  | requestsBlocked _ => RequestsBlocked.form.id

/-- Writes a message in the form of its kind. -/
def encode : ControlMessage → Encoded
  | fetch m => Fetch.form.encode m
  | fetchCancel m => FetchCancel.form.encode m
  | fetchOk m => FetchOk.form.encode m
  | fetchError m => FetchError.form.encode m
  | maxRequestId m => MaxRequestId.form.encode m
  | requestsBlocked m => RequestsBlocked.form.encode m

/-- Reads an envelope and then its body, as a message of whichever kind the ID names. -/
def decode : Decoder ControlMessage := do
  let e ← Envelope.decode
  match e.parse with
  | .ok m => pure m
  | .error err => .fail err

def codec : Codec ControlMessage := ⟨encode, decode⟩

end ControlMessage

end LiveMedia.Message
