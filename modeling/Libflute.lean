import Libflute.Library.SortedMap
import Libflute.Library.Run
import Libflute.Library.Octets
import Libflute.Library.Md5
import Libflute.Library.SinglePrecision
import Libflute.Types
import Libflute.Base64
import Libflute.EncodingSymbol
import Libflute.AlcPacket
import Libflute.AlcRoundTrip
import Libflute.AlcSafety
import Libflute.Xml
import Libflute.Env
import Libflute.SampleEnv
import Libflute.FileDeliveryTable
import Libflute.File
import Libflute.Partitioning
import Libflute.Layout
import Libflute.FileSymbols
import Libflute.FileSending
import Libflute.FileMarking
import Libflute.FreshFile
import Libflute.ContentCoding
import Libflute.Draining
import Libflute.Reassembly
import Libflute.Transfer
import Libflute.Reception
import Libflute.Tunnel
import Libflute.Transmitter
import Libflute.TransmitterSpec
import Libflute.SendQueue
import Libflute.TransmitterEffect
import Libflute.TransmitterSound
import Libflute.TransmitterObjects
import Libflute.Handed
import Libflute.Carrying
import Libflute.Reporting
import Libflute.Progress
import Libflute.Waiting
import Libflute.MaxPayload
import Libflute.InstanceIds
import Libflute.FdtRoundTrip
import Libflute.Receiver
import Libflute.ReceiverSpec
import Libflute.Governing
import Libflute.NoneComplete
import Libflute.Library.Tiling
import Libflute.Tiling
import Libflute.Strays
import Libflute.Payload
import Libflute.WideFields
import Libflute.Library.OnesComplement
import Libflute.TunnelChecksums
import Libflute.Description
import Libflute.ContentChanges
import Libflute.FdtSafety
import Libflute.Scope
import Libflute.TableTexts
import Libflute.Prefixes
import Libflute.Rejections
import Libflute.HeldFiles
import Libflute.Sourcing
import Libflute.Delivery
import Libflute.Instances
import Libflute.Erasing
import Libflute.SendCalls
import Libflute.Agreement
import Libflute.FdtFirst
import Libflute.SendLoop
import Libflute.OneLoop
import Libflute.Versions
