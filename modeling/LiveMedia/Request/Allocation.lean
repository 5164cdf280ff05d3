import LiveMedia.Error.Transport
import LiveMedia.Message.Envelope
import LiveMedia.Stream.Attempt

/-!
# Allocation of request IDs

Requests are numbered in steps of two below a limit that the peer grants. A request that finds no
number below the limit says so once for each limit and waits until the limit is raised.
-/

namespace LiveMedia.Request

open LiveMedia.Message

/-- The numbers that were given out and the limit on them. -/
structure Allocation where
  next : RequestId
  limit : RequestId
  /-- The peer was told that requests wait for a higher limit than this. -/
  blocked : Bool
deriving DecidableEq, Repr

namespace Allocation

/-- Clients take even numbers, servers odd ones. -/
def start (client : Bool) (limit : RequestId) : Allocation :=
  ⟨⟨if client then 0 else 1⟩, limit, false⟩

/-- The next number, if it is below the limit. The number behind it exists, as limits and numbers are
words of 64 bits and the two largest words are never given out. -/
def take? (a : Allocation) : Option (RequestId × Allocation) :=
  if a.next.val < a.limit.val then
    a.next.successor?.map fun next => (a.next, { a with next })
  else none

/-- Raises the limit; a lower one is ignored. The flag says whether it was raised. -/
def raise (a : Allocation) (limit : RequestId) : Bool × Allocation :=
  if a.limit.val < limit.val then (true, { a with limit, blocked := false }) else (false, a)

end Allocation

end LiveMedia.Request
