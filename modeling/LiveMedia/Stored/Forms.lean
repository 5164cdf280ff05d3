import LiveMedia.Audio.Ring
import LiveMedia.Live.Track
import LiveMedia.Message.Group
import LiveMedia.Message.Location
import LiveMedia.Message.Namespace
import LiveMedia.Message.Request
import LiveMedia.Playback.Player
import LiveMedia.Stored.Form
import LiveMedia.Time.Written

/-!
# The stored forms of the library's values

Numbers of the variable-length form, times and request IDs are stored as plain words of 64 bits;
their range is not looked at again when they are read. The two configurations store spans as written
ones, and their fields may be missing.
-/

namespace LiveMedia.Stored

open LiveMedia.Wire LiveMedia.Message LiveMedia.Time LiveMedia.Audio

-- ── numbers and times ───────────────────────────────────────────────

def varint : Form Varint := word64.via Varint.val fun n => some ⟨n⟩

def timescale (scale : Nat) : Form (Timescale scale) :=
  varint.via Timescale.ticks fun v => some ⟨v⟩

def requestId : Form RequestId := word64.via RequestId.val fun n => some ⟨n⟩

/-- A span as people write it. -/
def span : Form Span := text.via Span.written Span.ofWritten?

-- ── messages ────────────────────────────────────────────────────────

def space : Form Namespace := (listOf text).via Namespace.parts fun parts => some ⟨parts⟩

def location : Form Location where
  write l := braced [("group", word64.write l.group), ("object", word64.write l.object)]
  read j := do
    let [group, object] ← fields? ["group", "object"] j | none
    return ⟨← word64.required group, ← word64.required object⟩

/-- The name of an order of delivery. -/
def orderName : GroupOrder → String
  | .any => "Any"
  | .ascending => "Ascending"
  | .descending => "Descending"

def orderOfName? (name : String) : Option GroupOrder :=
  [GroupOrder.any, .ascending, .descending].find? fun order => orderName order == name

/-- An order is stored as its name; an object with that name over nothing is read as well. -/
def groupOrder : Form GroupOrder where
  write order := quoted (orderName order)
  read
    | .text (some name) => orderOfName? name
    | .object [(some name, .null)] => orderOfName? name
    | _ => none

def groupFlags : Form GroupFlags where
  write f := braced [("has_extensions", flag.write f.hasExtensions),
    ("has_subgroup_object", flag.write f.hasSubgroupObject),
    ("has_subgroup", flag.write f.hasSubgroup), ("has_end", flag.write f.hasEnd)]
  read j := do
    let [extensions, subgroupObject, subgroup, atEnd] ←
      fields? ["has_extensions", "has_subgroup_object", "has_subgroup", "has_end"] j | none
    return ⟨← flag.required extensions, ← flag.required subgroupObject, ← flag.required subgroup,
      ← flag.required atEnd⟩

def groupHeader : Form GroupHeader where
  write h := braced [("flags", groupFlags.write h.flags),
    ("track_alias", word64.write h.trackAlias), ("group_id", word64.write h.groupId),
    ("sub_group_id", word64.write h.subGroupId),
    ("publisher_priority", octet.write h.publisherPriority)]
  read j := do
    let [flags, trackAlias, groupId, subGroupId, priority] ←
      fields? ["flags", "track_alias", "group_id", "sub_group_id", "publisher_priority"] j | none
    return ⟨← groupFlags.required flags, ← word64.required trackAlias, ← word64.required groupId,
      ← word64.required subGroupId, ← octet.required priority⟩

-- ── what is known of live media ─────────────────────────────────────

def trackInfo : Form Live.TrackInfo where
  write t := braced [("name", text.write t.name), ("priority", octet.write t.priority)]
  read j := do
    let [name, priority] ← fields? ["name", "priority"] j | none
    return ⟨← text.required name, ← octet.required priority⟩

/-- A record of one number. -/
def counted (name : String) : Form Nat where
  write n := braced [(name, word64.write n)]
  read j := do
    let [n] ← fields? [name] j | none
    word64.required n

/-- What is stored of a group: its sequence number. -/
def groupInfo : Form Nat := counted "sequence"

/-- What is stored of a frame: its size. -/
def frameInfo : Form Nat := counted "size"

-- ── configurations ──────────────────────────────────────────────────

def audioConfig : Form AudioConfig where
  write c := braced [("sample_rate", word32.write c.sampleRate),
    ("channel_count", word32.write c.channelCount), ("latency", span.write c.latency)]
  read j := do
    let standard := AudioConfig.standard
    let [rate, count, latency] ← fields? ["sample_rate", "channel_count", "latency"] j | none
    return ⟨← word32.orStandard standard.sampleRate rate,
      ← word32.orStandard standard.channelCount count, ← span.orStandard standard.latency latency⟩

/-- The configuration of a player is its latency. -/
def playerConfig : Form Span where
  write latency := braced [("latency", span.write latency)]
  read j := do
    let [latency] ← fields? ["latency"] j | none
    span.orStandard Playback.Player.standardLatency latency

end LiveMedia.Stored
