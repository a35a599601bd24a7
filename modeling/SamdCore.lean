import SamdCore.MachineRuns
import SamdCore.BoundedQueue
import SamdCore.CircularSegment
import SamdCore.RingBufferModel
import SamdCore.RingBufferContents
import SamdCore.RingBufferQueue
import SamdCore.RingBufferDirect
import SamdCore.RingBufferCopies
import SamdCore.CdcDriverModel
import SamdCore.CdcDriverRuns
import SamdCore.CdcDriverService
import SamdCore.CdcDriverCredit
import SamdCore.SerialModel
import SamdCore.SerialSender
import SamdCore.SerialReceiver
import SamdCore.SerialConfinement
import SamdCore.SerialTransmit
import SamdCore.SerialReceive
import SamdCore.ControlModel
import SamdCore.ControlReset
import SamdCore.ControlLineCoding
import SamdCore.CriticalSectionModel
import SamdCore.CriticalSectionMask
import SamdCore.RingBufferBlocks
import SamdCore.Delay
import SamdCore.ResetHandler
import SamdCore.EchoModel
import SamdCore.EchoDelivery
import SamdCore.RingBufferEnd
import SamdCore.SerialBlocks
import SamdCore.SerialProgress
import SamdCore.CriticalSectionAtomic
import SamdCore.SerialTestModel
import SamdCore.SerialTestEcho
import SamdCore.SerialTestOpening
import SamdCore.SerialTestStuck
import SamdCore.LinkerScripts
import SamdCore.ControlTouch
import SamdCore.ApplicationErase
import SamdCore.Blink
import SamdCore.SerialDeletion
