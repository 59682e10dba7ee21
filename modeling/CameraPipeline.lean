import CameraPipeline.Systems.Automaton
import CameraPipeline.Systems.Program
import CameraPipeline.Systems.WeakestPre
import CameraPipeline.Systems.Hiding
import CameraPipeline.Systems.Polling
import CameraPipeline.Systems.Link
import CameraPipeline.Systems.Handoff
import CameraPipeline.Data.Buffer
import CameraPipeline.Data.Hex
import CameraPipeline.Data.LittleEndian
import CameraPipeline.Data.Lines
import CameraPipeline.RingBuffer.Basic
import CameraPipeline.RingBuffer.Queue
import CameraPipeline.RingBuffer.Depth
import CameraPipeline.RingBuffer.CircularBuffer
import CameraPipeline.Lock.Semaphore
import CameraPipeline.Lock.Mutex
import CameraPipeline.Lock.Launch
import CameraPipeline.Camera.Calls
import CameraPipeline.Camera.Uart
import CameraPipeline.Camera.Spi
import CameraPipeline.Camera.Main
import CameraPipeline.Camera.Slicing
import CameraPipeline.Camera.Bounds
import CameraPipeline.Camera.Chunking
import CameraPipeline.Protocol.OpenMV
import CameraPipeline.Pipeline.System
import CameraPipeline.Pipeline.Decoding
import CameraPipeline.Pipeline.Request
import CameraPipeline.Pipeline.Memory
import CameraPipeline.Pipeline.Transfer
import CameraPipeline.Pipeline.Independence
import CameraPipeline.Pipeline.Reply
import CameraPipeline.Pipeline.Frame
import CameraPipeline.Pipeline.Delivery
import CameraPipeline.Pipeline.Progress
import CameraPipeline.Pipeline.Console
import CameraPipeline.Pipeline.Captures
import CameraPipeline.Pipeline.CameraRuns
import CameraPipeline.Systems.Atomic
import CameraPipeline.Lock.Guard
import CameraPipeline.RingBuffer.Concurrent
import CameraPipeline.RingBuffer.Returns
import CameraPipeline.Data.LinkedQueue
import CameraPipeline.Sched.TaskLists
import CameraPipeline.Sched.Kernel
import CameraPipeline.Sched.Representation
import CameraPipeline.Sched.Order
import CameraPipeline.Sched.Steps
import CameraPipeline.Sched.Priorities
import CameraPipeline.Sched.Scheduler
import CameraPipeline.Sched.Runs
import CameraPipeline.Data.SlotRing
import CameraPipeline.Serial.Driver
import CameraPipeline.Serial.Transmit
import CameraPipeline.Serial.Stream
import CameraPipeline.Serial.Flight
