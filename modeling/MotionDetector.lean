import MotionDetector.Lib.Transition
import MotionDetector.Lib.BoundedQueue
import MotionDetector.Lib.Pieces
import MotionDetector.Lib.FixedPoint
import MotionDetector.Lib.Printf
import MotionDetector.Lib.Circular
import MotionDetector.Lib.Delimited
import MotionDetector.Lib.Resync
import MotionDetector.Lib.Stores
import MotionDetector.Lib.Sections
import MotionDetector.Lib.Wakeups
import MotionDetector.Types
import MotionDetector.Osal.Queue
import MotionDetector.Osal.Tasks
import MotionDetector.Osal.TaskEffects
import MotionDetector.Osal.Creation
import MotionDetector.Osal.TaskTable
import MotionDetector.Osal.Scheduler
import MotionDetector.Osal.Mutex
import MotionDetector.Osal.Teardown
import MotionDetector.Osal.TeardownOnce
import MotionDetector.Detection.Fsm
import MotionDetector.Detection.Trace
import MotionDetector.Detection.Gpio
import MotionDetector.Detection.Shutdown
import MotionDetector.Camera.Camera
import MotionDetector.Camera.Shutdown
import MotionDetector.Events.Lifetimes
import MotionDetector.Events.MotionEvents
import MotionDetector.Events.Agreement
import MotionDetector.Events.Conservation
import MotionDetector.Ring.Ringbuffer
import MotionDetector.Ring.Frame
import MotionDetector.Ring.LockFree
import MotionDetector.Ring.Fifo
import MotionDetector.Stream.FrameTransform
import MotionDetector.Pipeline.Framebuffer
import MotionDetector.Pipeline.Image
import MotionDetector.Pipeline.ColorLut
import MotionDetector.Pipeline.Yuyv
import MotionDetector.Pipeline.YuyvBounds
import MotionDetector.Pipeline.Split
import MotionDetector.Pipeline.FileWrite
import MotionDetector.Pipeline.Buffers
import MotionDetector.Pipeline.Footprint
import MotionDetector.Pipeline.System
import MotionDetector.Pipeline.Conservation
import MotionDetector.Pipeline.Slots
import MotionDetector.Pipeline.Counting
import MotionDetector.Pipeline.Delivery
import MotionDetector.Pipeline.Loss
import MotionDetector.Pipeline.Leakage
import MotionDetector.Shutdown.Loops
import MotionDetector.Shutdown.ExitFlags
import MotionDetector.Shutdown.Program
import MotionDetector.Shutdown.Entries
import MotionDetector.Shutdown.Steps
import MotionDetector.Shutdown.Moves
import MotionDetector.Shutdown.Asleep
import MotionDetector.Shutdown.Graceful
import MotionDetector.Syslog.Syslog
import MotionDetector.Syslog.Lines
import MotionDetector.Lib.Backlog
import MotionDetector.Lib.Losses
import MotionDetector.Lib.Rates
import MotionDetector.Pipeline.Backlog
import MotionDetector.Pipeline.Losses
import MotionDetector.Pipeline.Statements
import MotionDetector.Pipeline.Chain
import MotionDetector.Pipeline.EventStatements
import MotionDetector.Pipeline.FrameStatements
import MotionDetector.Pipeline.Serial
import MotionDetector.Pipeline.Clocked
import MotionDetector.Pipeline.Activations
import MotionDetector.Pipeline.Occupancy
import MotionDetector.Pipeline.Throughput
import MotionDetector.Pipeline.Deadlines
import MotionDetector.Pipeline.Latency
import MotionDetector.Events.Recording
import MotionDetector.Pipeline.Motion
import MotionDetector.Pipeline.Device
import MotionDetector.Lib.SelfDelimiting
import MotionDetector.Stream.HttpServer
import MotionDetector.Pipeline.Viewing
import MotionDetector.Lib.Linearization
import MotionDetector.Pipeline.Atomicity
import MotionDetector.Shutdown.WaitAll
