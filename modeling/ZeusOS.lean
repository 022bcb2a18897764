import ZeusOS.Foundation.Words
import ZeusOS.Foundation.Runs
import ZeusOS.Binder.Parcel
import ZeusOS.Binder.Writing
import ZeusOS.Binder.Reading
import ZeusOS.Binder.RoundTrip
import ZeusOS.Binder.Arrival
import ZeusOS.Binder.Protocol
import ZeusOS.Binder.Binder
import ZeusOS.Binder.Stream
import ZeusOS.Binder.Looper
import ZeusOS.Binder.Batches
import ZeusOS.Binder.Inspect
import ZeusOS.ServiceManager.Manager
import ZeusOS.ServiceManager.Outcomes
import ZeusOS.ServiceManager.Registry
import ZeusOS.ServiceManager.Deaths
import ZeusOS.Foundation.Custody
import ZeusOS.Frameworks.Buffers
import ZeusOS.Foundation.Segments
import ZeusOS.Input.Decoding
import ZeusOS.Foundation.Descriptors
import ZeusOS.Input.Reader
import ZeusOS.Binder.Room
import ZeusOS.Foundation.Keyed
import ZeusOS.ServiceManager.Lookup
import ZeusOS.Frameworks.Exchange
import ZeusOS.Frameworks.Directory
import ZeusOS.InputManager.Outcomes
import ZeusOS.InputManager.Listeners
import ZeusOS.InputManager.Ledger
import ZeusOS.InputManager.Notices
import ZeusOS.Frameworks.Provenance
import ZeusOS.ThreadPool.Queue
import ZeusOS.InputManager.Dispatch
import ZeusOS.Frameworks.TestService
import ZeusOS.Frameworks.Stubs
import ZeusOS.Frameworks.Formats
import ZeusOS.Binder.Confined
import ZeusOS.Binder.Filling
import ZeusOS.Binder.Empty
import ZeusOS.Binder.Sending
import ZeusOS.Binder.Scan
import ZeusOS.ServiceManager.Names
import ZeusOS.Foundation.Footprint
import ZeusOS.ServiceManager.Extent
import ZeusOS.InputManager.Lifetimes
import ZeusOS.Input.Slots
import ZeusOS.Input.Releases
import ZeusOS.InputManager.Silence
import ZeusOS.Foundation.Walks
import ZeusOS.Input.InotifyDevice
import ZeusOS.Input.FileTree
import ZeusOS.Input.Watching
import ZeusOS.Input.Mirror
import ZeusOS.Input.Records
import ZeusOS.Input.Notifications
import ZeusOS.Input.Pending
import ZeusOS.ThreadPool.Limit
import ZeusOS.ThreadPool.Threads
import ZeusOS.Foundation.Axes
import ZeusOS.Calibrate.Calibrate
import ZeusOS.Calibrate.Inversion
import ZeusOS.Foundation.Leaders
import ZeusOS.Calibrate.Sampling
import ZeusOS.Calibrate.Session
import ZeusOS.Foundation.Potential
import ZeusOS.ThreadPool.Shutdown
import ZeusOS.ThreadPool.Drain
import ZeusOS.Foundation.Grants
import ZeusOS.Frameworks.References
import ZeusOS.Frameworks.Ownership
import ZeusOS.Frameworks.Trips
import ZeusOS.Frameworks.Roster
import ZeusOS.Input.Scanning
import ZeusOS.Foundation.Once
import ZeusOS.Frameworks.Singletons
import ZeusOS.Foundation.Overlay
import ZeusOS.InputManager.Client
import ZeusOS.InputManager.Pipeline
import ZeusOS.Foundation.Catchup
import ZeusOS.Input.Hotplug
import ZeusOS.InputManager.Touches
import ZeusOS.Calibrate.Config
import ZeusOS.Frameworks.Dialogues
import ZeusOS.Frameworks.Errands
import ZeusOS.Frameworks.Naming
import ZeusOS.Frameworks.Resolution
