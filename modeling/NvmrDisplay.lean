import NvmrDisplay.Lib.IndexLoop
import NvmrDisplay.Lib.Machine
import NvmrDisplay.Lib.History
import NvmrDisplay.Lib.Safety
import NvmrDisplay.Lib.Mailbox
import NvmrDisplay.Lib.FirstBinding
import NvmrDisplay.Lib.PartialMemory
import NvmrDisplay.Lib.WireName
import NvmrDisplay.Lib.Keyed
import NvmrDisplay.Qt
import NvmrDisplay.Discover.ServiceDiscover
import NvmrDisplay.Discover.AvahiBrowse
import NvmrDisplay.Discover.EmbeddedAvahiBrowse
import NvmrDisplay.Discover.Backend
import NvmrDisplay.Discover.Cameras
import NvmrDisplay.Discover.Announced
import NvmrDisplay.Discover.Footprint
import NvmrDisplay.Avahi.ServiceResolver
import NvmrDisplay.Avahi.DomainLabel
import NvmrDisplay.Avahi.DomainName
import NvmrDisplay.Avahi.ServiceName
import NvmrDisplay.Avahi.DnsPacket
import NvmrDisplay.Avahi.DnsName
import NvmrDisplay.Avahi.ResourceRecord
import NvmrDisplay.Avahi.DnsRecord
import NvmrDisplay.Avahi.DnsRoundTrip
import NvmrDisplay.Avahi.DnsMessage
import NvmrDisplay.Avahi.RecordEquality
import NvmrDisplay.Avahi.ResponseSched
import NvmrDisplay.Avahi.ResponseLife
import NvmrDisplay.Avahi.ResponseHistory
import NvmrDisplay.Avahi.ResponsePackets
import NvmrDisplay.Avahi.QuerySched
import NvmrDisplay.Avahi.KnownAnswers
import NvmrDisplay.Avahi.QueryHistory
import NvmrDisplay.Avahi.QueryPackets
import NvmrDisplay.Avahi.Hashmap
import NvmrDisplay.Avahi.Cache
import NvmrDisplay.Avahi.CacheRuns
import NvmrDisplay.Avahi.CacheLifetime
import NvmrDisplay.Avahi.CacheResponses
import NvmrDisplay.Avahi.StringList
import NvmrDisplay.Discover.TxtRecord
import NvmrDisplay.Discover.Reconnect
import NvmrDisplay.Dbus.Handshake
import NvmrDisplay.Qml.VideoForm
import NvmrDisplay.Qml.Screen
import NvmrDisplay.Qml.ScreenRefinement
import NvmrDisplay.Qml.Layout
import NvmrDisplay.Qml.Removal
import NvmrDisplay.Qml.Replacement
import NvmrDisplay.Qml.Switching
import NvmrDisplay.System.Display
import NvmrDisplay.System.Uniqueness
import NvmrDisplay.System.Presence
import NvmrDisplay.System.Agreement
import NvmrDisplay.System.Isolation
import NvmrDisplay.Web.SettingsHelper
import NvmrDisplay.Web.WebForm
import NvmrDisplay.Widgets.NVMRDisplay
import NvmrDisplay.Widgets.Screen
import NvmrDisplay.Widgets.FourViews
import NvmrDisplay.Widgets.Available
import NvmrDisplay.Widgets.Keypad
