import LiveMedia.Text.Path
import LiveMedia.Wire.Primitive

/-!
# Track namespaces

A namespace is a list of at most 32 texts on the wire, and a path with `/` between its parts for
people. `Namespace.path_ofPath` says that the path of a namespace read from a path is that path.
-/

namespace LiveMedia.Message

open LiveMedia.Wire LiveMedia.Text

/-- An ordered tuple of texts that names a broadcast. -/
structure Namespace where
  parts : List String
deriving DecidableEq, Repr

namespace Namespace

/-- The most parts that a namespace has on the wire. -/
def partLimit : Nat := 32

/-- The parts of a path; the empty path has none. -/
def ofPath (path : String) : Namespace :=
  if path.toList = [] then ⟨[]⟩
  else ⟨(splitAtChar '/' path.toList).map String.ofList⟩

/-- The parts with a slash between neighbours. -/
def path (ns : Namespace) : String :=
  String.ofList (joinWithChar '/' (ns.parts.map String.toList))

@[simp] theorem path_ofPath (path : String) : (ofPath path).path = path := by
  unfold ofPath Namespace.path
  split
  · next h => exact String.toList_inj.1 (by simp [joinWithChar, h])
  · simp [Function.comp_def]

def encode (ns : Namespace) : Encoded :=
  if ns.parts.length ≤ partLimit then do
    let count ← encodeCompact ns.parts.length
    let parts ← encodeAll encodeText ns.parts
    return count ++ parts
  else .error .boundsExceeded

def decode : Decoder Namespace := do
  let count ← decodeCompact
  if count ≤ partLimit then
    let parts ← Decoder.replicate decodeText count
    pure ⟨parts⟩
  else .fail .tooMany

def codec : Codec Namespace := ⟨encode, decode⟩

end Namespace

end LiveMedia.Message
