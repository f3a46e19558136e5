import OpenMptl.AdcSequence
import OpenMptl.Baudrate
import OpenMptl.BitField
import OpenMptl.BitMask
import OpenMptl.Bitband
import OpenMptl.BoundedQueue
import OpenMptl.BusMonitor
import OpenMptl.ByteMemory
import OpenMptl.CallSequence
import OpenMptl.CellGrid
import OpenMptl.Checked
import OpenMptl.ChipSelect
import OpenMptl.ClockGate
import OpenMptl.ClockHse
import OpenMptl.ClockSetup
import OpenMptl.ClockStartup
import OpenMptl.ClockTree
import OpenMptl.Console
import OpenMptl.ConsoleProgress
import OpenMptl.ConsoleRun
import OpenMptl.CountedRingBuffer
import OpenMptl.Crt
import OpenMptl.CycleCounter
import OpenMptl.Debouncer
import OpenMptl.DebouncerShift
import OpenMptl.DownRadix
import OpenMptl.FlashLatency
import OpenMptl.GpioPort
import OpenMptl.InstalledHandlers
import OpenMptl.ItoaSigned
import OpenMptl.Joystick
import OpenMptl.KernelLoop
import OpenMptl.LcdLayout
import OpenMptl.LcdScreen
import OpenMptl.LcdTransfer
import OpenMptl.Lines
import OpenMptl.LinkerScript
import OpenMptl.Lockstep
import OpenMptl.MemoryBlock
import OpenMptl.MergedRegmask
import OpenMptl.MergedRegmaskVoid
import OpenMptl.Nanosleep
import OpenMptl.Numeral
import OpenMptl.PartialSpec
import OpenMptl.Patch
import OpenMptl.PinResources
import OpenMptl.PoormanCstring
import OpenMptl.PoormanOstream
import OpenMptl.Promotion
import OpenMptl.PushLog
import OpenMptl.RccWait
import OpenMptl.RegManip
import OpenMptl.RegReaction
import OpenMptl.Regbits
import OpenMptl.RegbitsField
import OpenMptl.RegbitsMask
import OpenMptl.Register
import OpenMptl.Reglist
import OpenMptl.ReglistMerge
import OpenMptl.ReglistReset
import OpenMptl.ReglistRun
import OpenMptl.Regmask
import OpenMptl.RegmaskRun
import OpenMptl.RegvalFields
import OpenMptl.RegvalList
import OpenMptl.RegvalTest
import OpenMptl.RingBuffer
import OpenMptl.RingBufferBatches
import OpenMptl.RingBufferQueue
import OpenMptl.RingBufferSafety
import OpenMptl.RingWindow
import OpenMptl.RtcConfig
import OpenMptl.RtcCounter
import OpenMptl.Screen
import OpenMptl.ScreenItem
import OpenMptl.SetValue
import OpenMptl.Settling
import OpenMptl.SharedCells
import OpenMptl.SimAccess
import OpenMptl.SpiFrequency
import OpenMptl.SplitCounter
import OpenMptl.StatusBus
import OpenMptl.StoreBuffer
import OpenMptl.StrictReset
import OpenMptl.SystemClockF1
import OpenMptl.SystemClockF4
import OpenMptl.Terminal
import OpenMptl.TerminalHooks
import OpenMptl.TerminalLines
import OpenMptl.TerminalRun
import OpenMptl.TerminalSim
import OpenMptl.TimeMeasurement
import OpenMptl.TimePoint
import OpenMptl.Transition
import OpenMptl.Typelist
import OpenMptl.TypelistLaws
import OpenMptl.UsartStream
import OpenMptl.UsartStreamSafety
import OpenMptl.VectorTable
import OpenMptl.Waiting
