import LiveMedia.Message.Group
import LiveMedia.Message.Location
import LiveMedia.Message.Namespace
import LiveMedia.Message.Parameters
import LiveMedia.Message.Request

/-!
# The bodies of control messages

Six messages are known: a fetch and its three answers, and the two messages about the limit on
request IDs. This module holds their bodies; the envelope around them is `Message.Envelope`. Fetches
and their acceptance end with parameters, which are read and dropped, and written as none.
-/

namespace LiveMedia.Message

open LiveMedia.Wire

/-- Which objects a fetch asks for. -/
inductive FetchRange where
  /-- An explicit range of a named track. -/
  | standalone (space : Namespace) (track : String) (start stop : Location)
  /-- A number of groups before the latest group of a subscription. -/
  | relativeJoining (subscription : RequestId) (groupOffset : Nat)
  /-- From a given group of a subscription. -/
  | absoluteJoining (subscription : RequestId) (groupId : Nat)
deriving DecidableEq, Repr

namespace FetchRange

def encode : FetchRange → Encoded
  | standalone space track start stop => do
    let type ← encodeCompact 1
    let space ← space.encode
    let track ← encodeText track
    let start ← start.encode
    let stop ← stop.encode
    return type ++ (space ++ (track ++ (start ++ stop)))
  | relativeJoining subscription groupOffset => do
    let type ← encodeCompact 2
    let subscription ← subscription.encode
    let groupOffset ← encodeCompact groupOffset
    return type ++ (subscription ++ groupOffset)
  | absoluteJoining subscription groupId => do
    let type ← encodeCompact 3
    let subscription ← subscription.encode
    let groupId ← encodeCompact groupId
    return type ++ (subscription ++ groupId)

def decode : Decoder FetchRange := do
  let type ← decodeCompact
  match type with
  | 1 =>
    let space ← Namespace.decode
    let track ← decodeText
    let start ← Location.decode
    let stop ← Location.decode
    pure (.standalone space track start stop)
  | 2 =>
    let subscription ← RequestId.decode
    let groupOffset ← decodeCompact
    pure (.relativeJoining subscription groupOffset)
  | 3 =>
    let subscription ← RequestId.decode
    let groupId ← decodeCompact
    pure (.absoluteJoining subscription groupId)
  | other => .fail (.unknownType other)

def codec : Codec FetchRange := ⟨encode, decode⟩

end FetchRange

/-- Asks for objects of the past. -/
structure Fetch where
  requestId : RequestId
  subscriberPriority : UInt8
  groupOrder : GroupOrder
  range : FetchRange
deriving DecidableEq, Repr

def Fetch.encodeBody (m : Fetch) : Encoded := do
  let requestId ← m.requestId.encode
  let priority ← encodeOctet m.subscriberPriority
  let order ← m.groupOrder.encode
  let range ← m.range.encode
  let parameters ← Parameters.empty.encode
  return requestId ++ (priority ++ (order ++ (range ++ parameters)))

def Fetch.decodeBody : Decoder Fetch := do
  let requestId ← RequestId.decode
  let priority ← decodeOctet
  let order ← GroupOrder.decode
  let range ← FetchRange.decode
  let _ ← Parameters.decode
  pure ⟨requestId, priority, order, range⟩

/-- Accepts a fetch. -/
structure FetchOk where
  requestId : RequestId
  groupOrder : GroupOrder
  endOfTrack : Bool
  endLocation : Location
deriving DecidableEq, Repr

def FetchOk.encodeBody (m : FetchOk) : Encoded := do
  let requestId ← m.requestId.encode
  let order ← m.groupOrder.encode
  let endOfTrack ← encodeFlag m.endOfTrack
  let endLocation ← m.endLocation.encode
  let parameters ← Parameters.empty.encode
  return requestId ++ (order ++ (endOfTrack ++ (endLocation ++ parameters)))

def FetchOk.decodeBody : Decoder FetchOk := do
  let requestId ← RequestId.decode
  let order ← GroupOrder.decode
  let endOfTrack ← decodeFlag
  let endLocation ← Location.decode
  let _ ← Parameters.decode
  pure ⟨requestId, order, endOfTrack, endLocation⟩

/-- Refuses a fetch. -/
structure FetchError where
  requestId : RequestId
  errorCode : Nat
  reason : String
deriving DecidableEq, Repr

def FetchError.encodeBody (m : FetchError) : Encoded := do
  let requestId ← m.requestId.encode
  let errorCode ← encodeCompact m.errorCode
  let reason ← encodeText m.reason
  return requestId ++ (errorCode ++ reason)

def FetchError.decodeBody : Decoder FetchError := do
  let requestId ← RequestId.decode
  let errorCode ← decodeCompact
  let reason ← decodeText
  pure ⟨requestId, errorCode, reason⟩

/-- Takes a fetch back. -/
structure FetchCancel where
  requestId : RequestId
deriving DecidableEq, Repr

def FetchCancel.encodeBody (m : FetchCancel) : Encoded := m.requestId.encode

def FetchCancel.decodeBody : Decoder FetchCancel := do
  let requestId ← RequestId.decode
  pure ⟨requestId⟩

/-- Raises the limit below which the peer may allocate request IDs. -/
structure MaxRequestId where
  requestId : RequestId
deriving DecidableEq, Repr

def MaxRequestId.encodeBody (m : MaxRequestId) : Encoded := encodeCounter m.requestId

def MaxRequestId.decodeBody : Decoder MaxRequestId := do
  let requestId ← decodeCounter
  pure ⟨requestId⟩

/-- Tells the peer that a request waits for a higher limit. -/
structure RequestsBlocked where
  requestId : RequestId
deriving DecidableEq, Repr

def RequestsBlocked.encodeBody (m : RequestsBlocked) : Encoded := encodeCounter m.requestId

def RequestsBlocked.decodeBody : Decoder RequestsBlocked := do
  let requestId ← decodeCounter
  pure ⟨requestId⟩

end LiveMedia.Message
