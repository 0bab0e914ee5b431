import Autbus.Departure
import Autbus.Answers
import Autbus.Outstanding
import Autbus.Settling
import Autbus.Broadcast
import Autbus.Exchanges
import Autbus.Grants
import Autbus.FirstFit
import Autbus.Refusals
import Autbus.RcvLists
import Autbus.Integrity
import Autbus.ParseBounds
import Autbus.HostWaits
import Autbus.Upgrade
import Autbus.Targets
import Autbus.Disposal
import Autbus.Consistency
import Autbus.Failures
import Autbus.Indices
import Autbus.Saves
import Autbus.Images
import Autbus.Sweeps
import Autbus.Presets
import Autbus.Holders
import Autbus.Timers
import Autbus.Dispatch
import Autbus.Retries
import Autbus.Releases
import Autbus.Uploads
import Autbus.Downloads
import Autbus.Agenda
import Autbus.Firings
import Autbus.Unpacking
import Autbus.Removals
import Autbus.Identities
import Autbus.Tidying
import Autbus.Firmware
import Autbus.Commands
import Autbus.Setups
import Autbus.Closings
import Autbus.Expiries
import Autbus.Datagrams
import Autbus.Neighbours
import Autbus.Ports
import Autbus.Checksums
import Autbus.Pings
import Autbus.FrameReads
import Autbus.CStrings
import Autbus.Lines
import Autbus.Words
import Autbus.Numerals
import Autbus.Itoa
import Autbus.Mprint
import Autbus.Sprintf
import Autbus.Uints
import Autbus.Calendar
import Autbus.TimeSync
import Autbus.NowTimes
import Autbus.Numbering
import Autbus.Wire
import Autbus.Stations
import Autbus.Headers
import Autbus.Resolution
import Autbus.Segment
import Autbus.Delivery
import Autbus.Rings
import Autbus.Console
import Autbus.Flash
import Autbus.Settings
import Autbus.Keeper
import Autbus.Restarts
import Autbus.Ticks
import Autbus.Addresses
import Autbus.Macs
