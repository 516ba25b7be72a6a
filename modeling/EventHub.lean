import EventHub.ChannelId
import EventHub.Main
import EventHub.Session.Run
import EventHub.Proofs.Config
import EventHub.Proofs.Demo.Run
import EventHub.Proofs.Hub.Bound
import EventHub.Proofs.System.Fetch
import EventHub.Proofs.System.Wakeup
import EventHub.Proofs.System.Probing
import EventHub.Proofs.System.Forgetful
import EventHub.Proofs.System.WaitCalls
import EventHub.Proofs.System.OwnBit
import EventHub.Proofs.System.Polling
import EventHub.Proofs.System.WholeLogs
import EventHub.Proofs.Config.Layers
import EventHub.Proofs.Recording.Readable
import EventHub.Proofs.Recording.Reopened
import EventHub.Proofs.Recording.Rollback
import EventHub.Proofs.Recording.Torn
import EventHub.Proofs.Recording.Appended
import EventHub.Proofs.Dump
import EventHub.Proofs.Mask
import EventHub.Proofs.Grammar
import EventHub.Proofs.MaskText
import EventHub.Proofs.Mask.Position
import EventHub.Proofs.System.Rounds
import EventHub.Proofs.Hub.Rounds
import EventHub.Proofs.Config.Written
import EventHub.Proofs.Session
