import GpioCtrlBoard.Preemption
import GpioCtrlBoard.LinkLeds
import GpioCtrlBoard.Replies
import GpioCtrlBoard.CutCommand
import GpioCtrlBoard.SerialLine
import GpioCtrlBoard.StaleBytes
import GpioCtrlBoard.LostWrites
import GpioCtrlBoard.Window
import GpioCtrlBoard.Controllers
import GpioCtrlBoard.StatusRow
import GpioCtrlBoard.Lib.RoundRobin
import GpioCtrlBoard.Threads
import GpioCtrlBoard.Scheduling
import GpioCtrlBoard.TimeSlices
import GpioCtrlBoard.BoardThreads
import GpioCtrlBoard.ThreadMutex
import GpioCtrlBoard.Connections
import GpioCtrlBoard.LostSlots
import GpioCtrlBoard.LivePage
