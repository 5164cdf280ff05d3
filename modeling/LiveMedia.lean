import LiveMedia.Main
import LiveMedia.Message.WireType
import LiveMedia.Request.Channel
import LiveMedia.Session.Perform
import LiveMedia.Stored.Forms
import LiveMedia.Proofs.Entries
import LiveMedia.Proofs.Playback.History
import LiveMedia.Proofs.Playback.Pass
import LiveMedia.Proofs.Playback.Run
import LiveMedia.Proofs.Playback.GroupOrder
import LiveMedia.Proofs.Playback.WithinBudget
import LiveMedia.Proofs.Playback.Ending
import LiveMedia.Proofs.Playback.Reachable
import LiveMedia.Proofs.Playback.Policy
import LiveMedia.Proofs.Playback.Draining
import LiveMedia.Proofs.Playback.Keyframes
import LiveMedia.Proofs.Audio.Refinement
import LiveMedia.Proofs.Audio.Bounds
import LiveMedia.Proofs.Message.Body
import LiveMedia.Proofs.Message.RoundTrip
import LiveMedia.Proofs.Message.Incremental
import LiveMedia.Proofs.Message.Parameters
import LiveMedia.Proofs.Message.Framing
import LiveMedia.Proofs.Wire.Rewriting
import LiveMedia.Proofs.Message.Rewriting
import LiveMedia.Proofs.Transfer.Grammar
import LiveMedia.Proofs.Live.Filling
import LiveMedia.Proofs.Live.Growth
import LiveMedia.Proofs.Live.Footprint
import LiveMedia.Proofs.Live.Finality
import LiveMedia.Proofs.Live.Ownership
import LiveMedia.Proofs.Live.FrameFollowing
import LiveMedia.Proofs.Live.GroupFollowing
import LiveMedia.Proofs.Live.Desertion
import LiveMedia.Proofs.Live.Announcement
import LiveMedia.Proofs.Live.TrackFollowing
import LiveMedia.Proofs.Live.Repetition
import LiveMedia.Proofs.Stream.Sink
import LiveMedia.Proofs.Stream.FirstWait
import LiveMedia.Proofs.Stream.Cuts
import LiveMedia.Proofs.Transfer.Acceptance
import LiveMedia.Proofs.Transfer.Sent
import LiveMedia.Proofs.Transfer.Transmission
import LiveMedia.Proofs.Transfer.Truncation
import LiveMedia.Proofs.Transfer.Following
import LiveMedia.Proofs.Transfer.Rounds
import LiveMedia.Proofs.Transfer.Completion
import LiveMedia.Proofs.Simulation.Delivery
import LiveMedia.Proofs.Simulation.Finding
import LiveMedia.Proofs.Simulation.Forwarding
import LiveMedia.Proofs.Simulation.Forwarded
import LiveMedia.Proofs.Request.History
import LiveMedia.Proofs.Request.Numbering
import LiveMedia.Proofs.Request.Blocking
import LiveMedia.Proofs.Request.Reception
import LiveMedia.Proofs.Request.Delivery
import LiveMedia.Proofs.Audio.Positions
import LiveMedia.Proofs.Audio.Interleaving
import LiveMedia.Proofs.Live.BroadcastFollowing
import LiveMedia.Proofs.Playback.Grouping
import LiveMedia.Proofs.Playback.Publishing
import LiveMedia.Proofs.Time.Range
import LiveMedia.Proofs.Time.Conversion
import LiveMedia.Proofs.Simulation.Ticking
import LiveMedia.Proofs.Live.Sharing
import LiveMedia.Proofs.Live.Counting
import LiveMedia.Proofs.Simulation.Undelayed
import LiveMedia.Proofs.Playback.Alongside
import LiveMedia.Proofs.Simulation.Contents
import LiveMedia.Proofs.Playback.Attending
import LiveMedia.Proofs.Playback.Ledger
import LiveMedia.Proofs.Playback.Watching
import LiveMedia.Proofs.Simulation.PerfectLine
import LiveMedia.Proofs.Simulation.PerfectNetwork
import LiveMedia.Proofs.Message.ParameterGrammar
import LiveMedia.Proofs.Request.Closing
import LiveMedia.Proofs.Playback.Refusal
import LiveMedia.Proofs.Simulation.Planning
import LiveMedia.Proofs.Message.NamespacePath
import LiveMedia.Proofs.Wire.Layout
import LiveMedia.Proofs.Message.ParameterKeys
import LiveMedia.Proofs.Message.ParameterLog
import LiveMedia.Proofs.Live.Window
