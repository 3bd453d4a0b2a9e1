import FlameSdd.SysLib.Runs
import FlameSdd.Level2Receiver
import FlameSdd.ActiveTargets
import FlameSdd.BarDirectory
import FlameSdd.DefectNames
import FlameSdd.ImageDelivery
import FlameSdd.JobDelivery
import FlameSdd.MessageLoops
import FlameSdd.FreshTargets
import FlameSdd.ImageNumbering
import FlameSdd.ClientWork
import FlameSdd.InferenceJob
import FlameSdd.InferenceLoop
import FlameSdd.ConcurrentQueue
import FlameSdd.LensControl
import FlameSdd.LensBridge
import FlameSdd.LensPosition
import FlameSdd.LensOpen
import FlameSdd.FocusTarget
import FlameSdd.LensThreads
import FlameSdd.DefectRenaming
import FlameSdd.DefectCopies
import FlameSdd.LabelUpdate
import FlameSdd.ProductLength
import FlameSdd.Standards
import FlameSdd.PresetSelection
import FlameSdd.Level2Update
import FlameSdd.PresetApplication
import FlameSdd.CopyCount
import FlameSdd.ImageField
import FlameSdd.RemoteCommand
import FlameSdd.StatusWait
import FlameSdd.UsbRead
import FlameSdd.ServerWork
import FlameSdd.AlivePeriod
import FlameSdd.MessageCounts
import FlameSdd.TemperatureSeries
import FlameSdd.EchoRequester
import FlameSdd.LightControl
import FlameSdd.DefectPlot
import FlameSdd.DiffMask
import FlameSdd.Verdict
import FlameSdd.LineFanOut
import FlameSdd.ImageStream
import FlameSdd.PlainStacker
import FlameSdd.BarImages
import FlameSdd.BarSite
import FlameSdd.BarJourney
import FlameSdd.PacketFraming
import FlameSdd.Level2Status
import FlameSdd.BarReport
import FlameSdd.LabelDelivery
import FlameSdd.LabelJourney
