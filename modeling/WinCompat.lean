import WinCompat.Sync.WaitSchedule
import WinCompat.Thread.Tls
import WinCompat.Loader.FailedLoad
import WinCompat.Hlsl.Inference
import WinCompat.Hlsl.LostTypes
import WinCompat.Hlsl.LexicalScope
import WinCompat.Loader.PseudoHandles
import WinCompat.Handle.Duplicate
import WinCompat.Handle.Namespaces
import WinCompat.Sync.Exported
import WinCompat.Sync.InitOnce
import WinCompat.Registry.Spelling
import WinCompat.Registry.Tree
import WinCompat.Gpu.Painter
import WinCompat.User32.Dispatch
import WinCompat.User32.Classes
import WinCompat.Gpu.References
import WinCompat.Gpu.CommandBuffers
import WinCompat.Gpu.SwapChainRuns
import WinCompat.Loader.CodePointers
import WinCompat.Loader.FileView
import WinCompat.Loader.PageProtections
import WinCompat.Hlsl.Literals
import WinCompat.Hlsl.Linkage
import WinCompat.Loader.Control
import WinCompat.Sync.Event
import WinCompat.Memory.Arithmetic
import WinCompat.Seh.Frame
import WinCompat.Heap.Handles
import WinCompat.Text.CodePages
import WinCompat.Shell.Paths
import WinCompat.Shell.Search
import WinCompat.Runtime.WndProc
import WinCompat.Loader.SearchPaths
import WinCompat.Text.Compare
import WinCompat.File.TwoCalls
import WinCompat.File.SetFilePointer
import WinCompat.Console.Streams
import WinCompat.Time.Clocks
import WinCompat.Process.Environment
import WinCompat.File.Copy
import WinCompat.Hlsl.CBufferLayout
import WinCompat.Hlsl.D3dCompile
import WinCompat.File.PositionedIo
import WinCompat.Sync.WaitOnAddress
import WinCompat.Thread.Identity
import WinCompat.Input.Evdev
import WinCompat.Net.Sockets
import WinCompat.Crt.Startup
import WinCompat.Crt.WideNumbers
import WinCompat.Crt.Format
import WinCompat.Crt.Agreement
import WinCompat.Loader.Edits
