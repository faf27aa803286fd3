import FreebsdLaunchd.AgentController.Agents
import FreebsdLaunchd.AgentController.Brought
import FreebsdLaunchd.AgentController.Passes
import FreebsdLaunchd.AgentController.Resolvers
import FreebsdLaunchd.AgentController.Supplemental
import FreebsdLaunchd.BondConfiguration.Members
import FreebsdLaunchd.DnsBuffer.Attributes
import FreebsdLaunchd.DnsBuffer.Configurations
import FreebsdLaunchd.DnsBuffer.Create
import FreebsdLaunchd.DnsBuffer.Described
import FreebsdLaunchd.DnsBuffer.Expand
import FreebsdLaunchd.DnsBuffer.Filling
import FreebsdLaunchd.DnsBuffer.Gathering
import FreebsdLaunchd.DnsBuffer.Resolvers
import FreebsdLaunchd.DnsBuffer.RoundTrip
import FreebsdLaunchd.DnsConfiguration.Collection
import FreebsdLaunchd.DnsConfiguration.Configuration
import FreebsdLaunchd.DnsConfiguration.Dictionaries
import FreebsdLaunchd.DnsConfiguration.Domains
import FreebsdLaunchd.DnsConfiguration.Duplicates
import FreebsdLaunchd.DnsConfiguration.Enumeration
import FreebsdLaunchd.DnsConfiguration.Independence
import FreebsdLaunchd.DnsConfiguration.Resolvers
import FreebsdLaunchd.DnsConfiguration.SearchList
import FreebsdLaunchd.DnsConfiguration.Sequence
import FreebsdLaunchd.DnsConfiguration.Signatures
import FreebsdLaunchd.Dnsinfo.Effective
import FreebsdLaunchd.Dnsinfo.Flatfile
import FreebsdLaunchd.Dnsinfo.Quiet
import FreebsdLaunchd.Dnsinfo.Spacing
import FreebsdLaunchd.Dnsinfo.WhiteSpace
import FreebsdLaunchd.DynamicStore.Anchoring
import FreebsdLaunchd.DynamicStore.Batches
import FreebsdLaunchd.DynamicStore.Bookkeeping
import FreebsdLaunchd.DynamicStore.Changes
import FreebsdLaunchd.DynamicStore.Closing
import FreebsdLaunchd.DynamicStore.Consistency
import FreebsdLaunchd.DynamicStore.Notices
import FreebsdLaunchd.DynamicStore.Notifying
import FreebsdLaunchd.DynamicStore.Operations
import FreebsdLaunchd.DynamicStore.Ownership
import FreebsdLaunchd.DynamicStore.Patterns
import FreebsdLaunchd.DynamicStore.Push
import FreebsdLaunchd.DynamicStore.Registration
import FreebsdLaunchd.DynamicStore.Reports
import FreebsdLaunchd.DynamicStore.Rewatching
import FreebsdLaunchd.DynamicStore.Scans
import FreebsdLaunchd.DynamicStore.Server
import FreebsdLaunchd.DynamicStore.Sessions
import FreebsdLaunchd.DynamicStore.Store
import FreebsdLaunchd.DynamicStore.Undisturbed
import FreebsdLaunchd.DynamicStore.Values
import FreebsdLaunchd.DynamicStore.Views
import FreebsdLaunchd.DynamicStore.Watchers
import FreebsdLaunchd.DynamicStoreClient.Calls
import FreebsdLaunchd.DynamicStoreClient.Client
import FreebsdLaunchd.DynamicStoreClient.Linked
import FreebsdLaunchd.DynamicStoreClient.Recovery
import FreebsdLaunchd.DynamicStoreClient.Requests
import FreebsdLaunchd.InfoServer.InSync
import FreebsdLaunchd.InfoServer.Server
import FreebsdLaunchd.IpMonitor.Adding
import FreebsdLaunchd.IpMonitor.Apply
import FreebsdLaunchd.IpMonitor.Build
import FreebsdLaunchd.IpMonitor.Candidates
import FreebsdLaunchd.IpMonitor.Canonical
import FreebsdLaunchd.IpMonitor.Combined
import FreebsdLaunchd.IpMonitor.Coupling
import FreebsdLaunchd.IpMonitor.Creating
import FreebsdLaunchd.IpMonitor.DefaultRoute
import FreebsdLaunchd.IpMonitor.Election
import FreebsdLaunchd.IpMonitor.Entities
import FreebsdLaunchd.IpMonitor.Filling
import FreebsdLaunchd.IpMonitor.Gateways
import FreebsdLaunchd.IpMonitor.InStep
import FreebsdLaunchd.IpMonitor.LongestPrefix
import FreebsdLaunchd.IpMonitor.Lookup
import FreebsdLaunchd.IpMonitor.Merge
import FreebsdLaunchd.IpMonitor.ServerOrder
import FreebsdLaunchd.IpMonitor.Updating
import FreebsdLaunchd.IpMonitorControl.RankChanges
import FreebsdLaunchd.IpMonitorControl.Server
import FreebsdLaunchd.Ipc.Framing
import FreebsdLaunchd.Ipc.Link
import FreebsdLaunchd.Ipc.Protocol
import FreebsdLaunchd.KernelEventMonitor.Events
import FreebsdLaunchd.KernelEventMonitor.PrefixLen
import FreebsdLaunchd.KmodLoader.Daemon
import FreebsdLaunchd.KmodLoader.Planning
import FreebsdLaunchd.KmodLoader.RadeonPCIIDs
import FreebsdLaunchd.Liblaunch.Data
import FreebsdLaunchd.Liblaunch.Decode
import FreebsdLaunchd.Liblaunch.Delivery
import FreebsdLaunchd.Liblaunch.Dictionary
import FreebsdLaunchd.Liblaunch.Duplex
import FreebsdLaunchd.Liblaunch.Format
import FreebsdLaunchd.Liblaunch.Hostile
import FreebsdLaunchd.Liblaunch.Layout
import FreebsdLaunchd.Liblaunch.Messages
import FreebsdLaunchd.Liblaunch.Receiving
import FreebsdLaunchd.Liblaunch.RoundTrip
import FreebsdLaunchd.Liblaunch.Sending
import FreebsdLaunchd.Liblaunch.Shape
import FreebsdLaunchd.Liblaunch.Transport
import FreebsdLaunchd.Library.ArraySort
import FreebsdLaunchd.Library.ByteMemory
import FreebsdLaunchd.Library.CData
import FreebsdLaunchd.Library.Chains
import FreebsdLaunchd.Library.Descents
import FreebsdLaunchd.Library.Enrolment
import FreebsdLaunchd.Library.Enumerations
import FreebsdLaunchd.Library.Expressions
import FreebsdLaunchd.Library.Fairness
import FreebsdLaunchd.Library.FirstLeast
import FreebsdLaunchd.Library.FirstOccurrences
import FreebsdLaunchd.Library.Interleavings
import FreebsdLaunchd.Library.Keyed
import FreebsdLaunchd.Library.KeyedHistory
import FreebsdLaunchd.Library.Matching
import FreebsdLaunchd.Library.NamedBits
import FreebsdLaunchd.Library.NoticeBoard
import FreebsdLaunchd.Library.Outcomes
import FreebsdLaunchd.Library.Readings
import FreebsdLaunchd.Library.RefCounts
import FreebsdLaunchd.Library.Runs
import FreebsdLaunchd.Library.SpacedWords
import FreebsdLaunchd.Library.Substrings
import FreebsdLaunchd.Library.Tally
import FreebsdLaunchd.Library.Trees
import FreebsdLaunchd.LinkConfiguration.Media
import FreebsdLaunchd.LinkConfiguration.History
import FreebsdLaunchd.Nwi.Classification
import FreebsdLaunchd.Nwi.Diff
import FreebsdLaunchd.Nwi.Generations
import FreebsdLaunchd.Nwi.Growth
import FreebsdLaunchd.Nwi.InterfaceList
import FreebsdLaunchd.Nwi.Reachable
import FreebsdLaunchd.Nwi.Representation
import FreebsdLaunchd.Nwi.State
import FreebsdLaunchd.Preferences.Lens
import FreebsdLaunchd.Preferences.Links
import FreebsdLaunchd.Preferences.Path
import FreebsdLaunchd.Preferences.Transparency
import FreebsdLaunchd.PreferencesFile.Commit
import FreebsdLaunchd.PreferencesFile.Replacement
import FreebsdLaunchd.PreferencesLock.Attempts
import FreebsdLaunchd.PreferencesLock.Holding
import FreebsdLaunchd.PreferencesLock.Links
import FreebsdLaunchd.PreferencesLock.Locking
import FreebsdLaunchd.PreferencesMonitor.Flatten
import FreebsdLaunchd.PreferencesMonitor.Interfaces
import FreebsdLaunchd.PreferencesMonitor.Loading
import FreebsdLaunchd.PreferencesMonitor.Mirror
import FreebsdLaunchd.PreferencesMonitor.Models
import FreebsdLaunchd.PreferencesMonitor.Order
import FreebsdLaunchd.PreferencesMonitor.Renaming
import FreebsdLaunchd.PreferencesMonitor.Returning
import FreebsdLaunchd.PreferencesMonitor.Termination
import FreebsdLaunchd.PreferencesMonitor.Update
import FreebsdLaunchd.PreferencesRace.Exclusion
import FreebsdLaunchd.PreferencesRace.Steps
import FreebsdLaunchd.ProxyConfiguration.Proxies
import FreebsdLaunchd.ProxyConfiguration.Update
import FreebsdLaunchd.SessionTable.Failures
import FreebsdLaunchd.SessionTable.Table
import FreebsdLaunchd.StoreCache.Cache
import FreebsdLaunchd.Supervisor.Children
import FreebsdLaunchd.Supervisor.Core
import FreebsdLaunchd.Supervisor.Draining
import FreebsdLaunchd.Supervisor.Effects
import FreebsdLaunchd.Supervisor.Handlers
import FreebsdLaunchd.Supervisor.Job
import FreebsdLaunchd.Supervisor.KeepAlive
import FreebsdLaunchd.Supervisor.Lifecycle
import FreebsdLaunchd.Supervisor.Listing
import FreebsdLaunchd.Supervisor.Refinement
import FreebsdLaunchd.Supervisor.Representation
import FreebsdLaunchd.Supervisor.Requests
import FreebsdLaunchd.Supervisor.Runtime
import FreebsdLaunchd.Supervisor.Scanning
import FreebsdLaunchd.Supervisor.Singleton
import FreebsdLaunchd.Supervisor.Table
import FreebsdLaunchd.Supervisor.Throttle
import FreebsdLaunchd.Supervisor.Unload
