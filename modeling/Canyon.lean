import Canyon.Lib.Scoped
import Canyon.Lib.Shared
import Canyon.Lib.Lists
import Canyon.Lib.Codec
import Canyon.Lib.Forest
import Canyon.Fs.Device
import Canyon.Fs.Cache
import Canyon.Fs.Exec
import Canyon.Fs.Layout
import Canyon.Fs.Levels
import Canyon.Fs.Tree
import Canyon.Fs.TreeLayout
import Canyon.Fs.Laid
import Canyon.Fs.Resize
import Canyon.Fs.Bitmap
import Canyon.Fs.Cafs
import Canyon.Fs.Volume
import Canyon.Fs.Alloc
import Canyon.Fs.Contents
import Canyon.Fs.Holds
import Canyon.Fs.InodeCache
import Canyon.Fs.Calls
import Canyon.Fs.Init
import Canyon.Fs.Session
import Canyon.Fs.Packed
import Canyon.Fs.Runs
import Canyon.Fs.Directories
import Canyon.Kernel.Frame
import Canyon.Kernel.Heap
import Canyon.Fs.Mount
import Canyon.Fs.Access
import Canyon.Fs.Capacity
import Canyon.Fs.Shortage
import Canyon.Fs.Names
import Canyon.Fs.Roomy
import Canyon.Fs.Vfs
import Canyon.Fs.VfsCalls
import Canyon.Fs.VfsRuns
import Canyon.Fs.VfsHistory
import Canyon.Fs.Totality
import Canyon.Fs.Resolution
import Canyon.Fs.Remount
import Canyon.Fs.InodeRoom
import Canyon.Fs.BitmapSet
import Canyon.Kernel.Coalesce
import Canyon.Kernel.Position
import Canyon.Kernel.Dma
import Canyon.Kernel.Logger
import Canyon.Kernel.Console
import Canyon.Boot.PageTable
import Canyon.Boot.Segment
import Canyon.Boot.Coverage
import Canyon.Boot.Placement
import Canyon.Kernel.Pci
import Canyon.Fs.Coherence
import Canyon.Fs.Pinned
import Canyon.Fs.Image
import Canyon.Fs.Descent
import Canyon.Lib.Race
import Canyon.Fs.Interleave
import Canyon.Fs.Threads
import Canyon.Fs.Deadlock
import Canyon.Fs.Confined
import Canyon.Kernel.Sata
import Canyon.Fs.Concurrent
import Canyon.Fs.ConcurrentAlloc
import Canyon.Boot.Config
import Canyon.Boot.Space
import Canyon.Kernel.Handover
import Canyon.Fs.Crash
import Canyon.Kernel.Page
import Canyon.Lib.Processor
import Canyon.Kernel.Timer
