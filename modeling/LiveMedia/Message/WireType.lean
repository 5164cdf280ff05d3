import LiveMedia.Message.Envelope
import LiveMedia.Time.Scale

/-!
# The types that travel

Every type with a wire form has a name here, with the values it holds and the codec that writes and
reads them. What is said of all wire types is said of all members of `WireType`.
-/

namespace LiveMedia.Message

open LiveMedia.Wire LiveMedia.Time

/-- The names of the types that travel. -/
inductive WireType where
  | flag | octet | word
  /-- A number of the compact class. -/
  | compact
  | varint | text | bytes
  | optional (t : WireType)
  | space | location | groupOrder | requestId
  | time (scale : Nat)
  | groupHeader | fetchRange | parameters | envelope
  | fetch | fetchCancel | fetchOk | fetchError | maxRequestId | requestsBlocked
  | control
deriving DecidableEq, Repr

namespace WireType

/-- The values of a type. -/
def Value : WireType → Type
  | flag => Bool
  | octet => UInt8
  | word => UInt16
  | compact => Nat
  | varint => Varint
  | text => String
  | bytes => Bytes
  | optional t => Option t.Value
  | space => Namespace
  | location => Location
  | groupOrder => GroupOrder
  | requestId => RequestId
  | time scale => Timescale scale
  | groupHeader => GroupHeader
  | fetchRange => FetchRange
  | parameters => Parameters
  | envelope => Envelope
  | fetch => Fetch
  | fetchCancel => FetchCancel
  | fetchOk => FetchOk
  | fetchError => FetchError
  | maxRequestId => MaxRequestId
  | requestsBlocked => RequestsBlocked
  | control => ControlMessage

/-- The wire form of a type. -/
def codec : (t : WireType) → Codec t.Value
  | flag => Wire.flag
  | octet => Wire.octet
  | word => Wire.word
  | compact => Wire.compact
  | varint => ⟨fun v => .ok v.encode, Varint.decode⟩
  | text => Wire.text
  | bytes => Wire.bytes
  | optional t => t.codec.optional
  | space => Namespace.codec
  | location => Location.codec
  | groupOrder => GroupOrder.codec
  | requestId => RequestId.codec
  | time _ => Timescale.codec
  | groupHeader => GroupHeader.codec
  | fetchRange => FetchRange.codec
  | parameters => Parameters.codec
  | envelope => Envelope.codec
  | fetch => Fetch.form.codec
  | fetchCancel => FetchCancel.form.codec
  | fetchOk => FetchOk.form.codec
  | fetchError => FetchError.form.codec
  | maxRequestId => MaxRequestId.form.codec
  | requestsBlocked => RequestsBlocked.form.codec
  | control => ControlMessage.codec

end WireType

end LiveMedia.Message
