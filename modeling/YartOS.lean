import YartOS.Blk.Integrity
import YartOS.Clock.Epoch
import YartOS.Exec.Confined
import YartOS.Exec.Stack
import YartOS.Fs.Checksums
import YartOS.Fs.Crash
import YartOS.Fs.Deletion
import YartOS.Fs.GetSet
import YartOS.Fs.InodeNumbers
import YartOS.Fs.OutOfSpace
import YartOS.Fs.Robust
import YartOS.Fs.Truncate
import YartOS.Gfx.Blend
import YartOS.Gfx.Confined
import YartOS.Heap.Books
import YartOS.Heap.Capacity
import YartOS.Mm.Protection
import YartOS.Mm.Slots
import YartOS.Mm.UserMap
import YartOS.Net.ArpCache
import YartOS.Net.Checksum
import YartOS.Net.Close
import YartOS.Net.Demux
import YartOS.Net.Receiver
import YartOS.Net.Sender
import YartOS.Sched.AddressSpaces
import YartOS.Sched.OnePlace
import YartOS.Sched.Pipes
import YartOS.Sched.Signals
import YartOS.Sched.Vnodes
import YartOS.Sched.Waitpid
import YartOS.Tls.AppData
import YartOS.Tls.Reassembly
import YartOS.Tls.RoundTrip
import YartOS.Vfs.Import
import YartOS.Vfs.Links
import YartOS.Vfs.PlainArray
import YartOS.Vfs.WellFormed
import YartOS.Wifi.AccessPoint
import YartOS.Wifi.Nonces
import YartOS.Wifi.Replay
import YartOS.Wm.Damage
import YartOS.Wm.Frames
