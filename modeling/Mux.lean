import Mux.Lib.Run
import Mux.Lib.Channel
import Mux.Lib.Text
import Mux.Lib.Hex
import Mux.Lib.Bytes
import Mux.Lib.Reader
import Mux.Lib.Postcard
import Mux.Lib.Span
import Mux.Lib.Vt
import Mux.Lib.Count
import Mux.Lib.Uuid
import Mux.Lib.Shell
import Mux.Lib.Lines
import Mux.Lib.Follow
import Mux.Lib.Ring
import Mux.Lib.Queue
import Mux.Lib.Budget
import Mux.Lib.Best
import Mux.Terminal
import Mux.Session
import Mux.SessionLemmas
import Mux.StreamInv
import Mux.StreamSound
import Mux.ReplaySound
import Mux.EvictSound
import Mux.ReapSound
import Mux.Manager
import Mux.ManagerLemmas
import Mux.TableSound
import Mux.CloseLease
import Mux.Handoff
import Mux.HandoffLemmas
import Mux.HandoffInv
import Mux.UpgradeSound
import Mux.ReflectSound
import Mux.ConsumerSound
import Mux.LeaseSound
import Mux.Control
import Mux.ControlSound
import Mux.Socket
import Mux.Input
import Mux.InputSound
import Mux.Viewport
import Mux.ViewportSound
import Mux.KnownHosts
import Mux.PinSound
import Mux.FirstContact
import Mux.Tokens
import Mux.TokenSound
import Mux.TokenRace
import Mux.Broker
import Mux.BrokerSound
import Mux.Pane
import Mux.PaneSound
import Mux.Reattach
import Mux.ReattachSound
import Mux.Frame
import Mux.FrameSound
import Mux.Peer
import Mux.MigrateWire
import Mux.MigrateWireSound
import Mux.Uplink
import Mux.UplinkSound
import Mux.KeystrokeSound
import Mux.Watch
import Mux.WatchLemmas
import Mux.ExitSound
import Mux.WatchInv
import Mux.WatchSound
import Mux.Foreground
import Mux.ForegroundSound
import Mux.Audio
import Mux.AudioSound
import Mux.AudioLease
import Mux.AudioLeaseInv
import Mux.AudioLeaseSound
import Mux.Process
import Mux.ProcessSound
import Mux.Render
import Mux.RenderSound
import Mux.SplitTree
import Mux.Geometry
import Mux.ClosedPanes
import Mux.Window
import Mux.AppWindows
import Mux.WindowLemmas
import Mux.WindowSound
import Mux.AppWindowsSound
import Mux.WindowFocus
import Mux.FocusSound
import Mux.SnapshotSound
import Mux.LayoutSound
import Mux.CloseSound
import Mux.Retention
import Mux.HistorySound
import Mux.RetentionLemmas
import Mux.RetentionOps
import Mux.RetentionSound
import Mux.TreeSound
import Mux.GeometrySound
import Mux.SnapshotCodec
import Mux.SnapshotStore
import Mux.SnapshotStoreSound
import Mux.PreCrashSound
import Mux.ShapeSound
import Mux.LaunchCommand
import Mux.LaunchSound
import Mux.Adopt
import Mux.AdoptSound
import Mux.FocusWrap
import Mux.FocusOrder
import Mux.AlsaPcm
import Mux.AlsaPcmSound
import Mux.AlsaCapture
import Mux.AlsaCaptureSound
import Mux.Region
import Mux.RegionSound
import Mux.RegionExact
import Mux.Manifest
import Mux.ManifestSound
import Mux.Evaluate
import Mux.EvaluateSound
import Mux.Detector
import Mux.DetectorSound
import Mux.AgentRecord
import Mux.AgentRecordSound
import Mux.Request
import Mux.Admission
import Mux.AdmissionSound
import Mux.Lanes
import Mux.AudioDevices
import Mux.AudioPathSound
import Mux.Observe
import Mux.ObserveSound
import Mux.AudioProvider
import Mux.AudioProviderSound
import Mux.AutomaticAudio
import Mux.AutomaticAudioSound
import Mux.Clipboard
import Mux.ClipboardSound
import Mux.HostsWindow
import Mux.HostsWindowSound
import Mux.PrefixEngine
import Mux.PrefixEngineSound
