import NetCosm.Library.Runs
import NetCosm.Library.Buckets
import NetCosm.Library.Simulation
import NetCosm.Library.ClassMap
import NetCosm.Machine
import NetCosm.Table.Hash
import NetCosm.Table.HashSanity
import NetCosm.Table.HashRefinement
import NetCosm.Table.HashEntries
import NetCosm.Table.Multimap
import NetCosm.Table.MultimapCounter
import NetCosm.Text.CString
import NetCosm.Table.HashPlacement
import NetCosm.Table.MultimapLookup
import NetCosm.Table.Spellings
import NetCosm.Table.MultimapCells
import NetCosm.Table.MultimapRefinement
import NetCosm.Library.Outcome
import NetCosm.Objects.World
import NetCosm.Objects.Accounting
import NetCosm.Objects.Moves
import NetCosm.Objects.Additions
import NetCosm.Objects.RefCount
import NetCosm.Table.MultimapGrowth
import NetCosm.Objects.Shifts
import NetCosm.Objects.Conservation
import NetCosm.Objects.TakeAndDrop
import NetCosm.Objects.Shelves
import NetCosm.Objects.RoomIndex
import NetCosm.Library.LinkedCells
import NetCosm.Table.HashData
import NetCosm.Table.MultimapStore
import NetCosm.Table.MultimapCopy
import NetCosm.Client.Telnet
import NetCosm.Client.Input
import NetCosm.Server.Children
import NetCosm.Server.Membership
import NetCosm.Server.RoomUsers
import NetCosm.Server.RoomHooks
import NetCosm.Server.Verbs
import NetCosm.Library.Sessions
import NetCosm.Text.Words
import NetCosm.Client.Requests
import NetCosm.Client.Auth
import NetCosm.Client.Main
import NetCosm.Client.Identity
import NetCosm.Client.Negotiation
import NetCosm.Client.Fullness
import NetCosm.Client.Outcomes
import NetCosm.Client.Steps
import NetCosm.Client.Privileges
import NetCosm.Client.Limiter
import NetCosm.Client.Passwords
import NetCosm.Users.Userdb
import NetCosm.Users.Accounts
import NetCosm.Table.HashIterate
import NetCosm.Server.Dispatch
import NetCosm.Server.FanOut
import NetCosm.Server.OwnBytes
import NetCosm.Library.Readers
import NetCosm.Table.Filling
import NetCosm.Storage.Files
import NetCosm.Storage.Objects
import NetCosm.Storage.Encoding
import NetCosm.Storage.WorldFile
import NetCosm.Storage.Saving
import NetCosm.Storage.WorldLoading
import NetCosm.Storage.UserFile
import NetCosm.Storage.Truncation
import NetCosm.Storage.RoundTrip
import NetCosm.Storage.UserRoundTrip
import NetCosm.Storage.Inventories
import NetCosm.Storage.Restarts
import NetCosm.Storage.Startups
import NetCosm.Library.Loops
import NetCosm.Library.Groups
import NetCosm.Client.Output
import NetCosm.Client.Wrapping
import NetCosm.Client.Lines
import NetCosm.Server.Packets
import NetCosm.Server.Messages
import NetCosm.Server.Listings
import NetCosm.Server.WorldInit
import NetCosm.Table.KeyPointers
import NetCosm.Table.Releases
import NetCosm.Objects.Lifetimes
import NetCosm.Server.Arguments
import NetCosm.Server.Replies
import NetCosm.Server.Exchanges
import NetCosm.Server.Broadcasts
import NetCosm.Server.Waiting
import NetCosm.Server.Kicks
import NetCosm.Server.Atomic
import NetCosm.Server.RawMode
import NetCosm.Server.LoggedIn
import NetCosm.Library.Agreement
import NetCosm.Library.Replays
import NetCosm.Library.Finishing
import NetCosm.Objects.Counters
import NetCosm.Objects.Walking
import NetCosm.Server.Handlers
import NetCosm.Server.Modules
import NetCosm.Server.RoomCalls
import NetCosm.Server.WorldCalls
import NetCosm.Server.Answers
