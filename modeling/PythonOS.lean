import PythonOS.Libc.HeapRuns
import PythonOS.Asyncio.Lock
import PythonOS.Ext2.FileRuns
import PythonOS.Ext2.Failures
import PythonOS.Ext2.UnlinkBlocks
import PythonOS.Ext2.Tree
import PythonOS.Ext2.DirectoryWrap
import PythonOS.Libc.Mmap
import PythonOS.Asyncio.Ledger
import PythonOS.Libc.Pthread
import PythonOS.Bridge.TcpTransport
import PythonOS.Net.Closing
import PythonOS.Net.Arp
import PythonOS.Block.Virtio
import PythonOS.Vfs.Mounts
import PythonOS.Bridge.Calls
import PythonOS.Desktop.Isolation
import PythonOS.Desktop.Assets
import PythonOS.Libc.Time
import PythonOS.Libc.Strings
import PythonOS.Bridge.Console
import PythonOS.Asyncio.WaitFor
import PythonOS.Drivers.Dma
import PythonOS.Drivers.Mouse
import PythonOS.Display.Console
import PythonOS.Sound.Mixer
import PythonOS.Boot.Kthread
import PythonOS.Hal.Irq
import PythonOS.Turtle.Line
