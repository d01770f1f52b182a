import Uartbus.Analysis.StreamDecoders
import Uartbus.Analysis.GatewayFrames
import Uartbus.Analysis.LinuxGateway
import Uartbus.Analysis.HostRetransmission
import Uartbus.Analysis.PolledSend
import Uartbus.Analysis.Contention
import Uartbus.Analysis.LossyUpload
import Uartbus.Analysis.Checksum
import Uartbus.Analysis.JavaTools
import Uartbus.Analysis.EndpointClose
import Uartbus.Analysis.ServerConnection
import Uartbus.Analysis.RpcCalls
import Uartbus.Analysis.FlashRequests
import Uartbus.Analysis.HostFrames
import Uartbus.Analysis.UploadLoop
import Uartbus.Analysis.ConnectorClose
import Uartbus.Analysis.StreamerClose
import Uartbus.Analysis.ServedDirectory
import Uartbus.Analysis.InterruptVectors
import Uartbus.Analysis.ReadingEnds
import Uartbus.Analysis.DeviceCall
import Uartbus.Analysis.DeviceReads
import Uartbus.Analysis.SliceClock
import Uartbus.Analysis.NodeReflection
import Uartbus.Analysis.GatewayQueue
import Uartbus.Analysis.DirectoryCalls
import Uartbus.Analysis.Base64
import Uartbus.Analysis.PackInPlace
import Uartbus.Analysis.LogRotation
import Uartbus.Analysis.RecordSums
import Uartbus.Analysis.UploadedFile
