import AlopexOS.Lib.Prog
import AlopexOS.Lib.Run
import AlopexOS.Lib.CString
import AlopexOS.Lib.ByteString
import AlopexOS.Lib.Tiling
import AlopexOS.Lib.DList
import AlopexOS.Kernel.HeapRuns
import AlopexOS.Abtrfs.Crash
import AlopexOS.Abtrfs.ReadErrors
import AlopexOS.Abtrfs.NameTree
import AlopexOS.Abtrfs.Walk
import AlopexOS.Abtrfs.Mounting
import AlopexOS.Abtrfs.Extents
import AlopexOS.Abtrfs.FailedWrites
import AlopexOS.Abtrfs.LayoutRuns
import AlopexOS.Kernel.HeapRecovery
import AlopexOS.Kernel.HeapAlignment
import AlopexOS.Lib.QueuePair
import AlopexOS.Nvme.Controller
import AlopexOS.Nvme.AdminRing
import AlopexOS.Nvme.IoRing
import AlopexOS.Gaossd.Queue
import AlopexOS.Nvme.Transfer
import AlopexOS.Nvme.BlockArray
import AlopexOS.Nvme.Encoding
import AlopexOS.Abtrfs.OneDevice
import AlopexOS.Arr.Dynarr
import AlopexOS.Arr.Growth
import AlopexOS.Lib.Ownership
import AlopexOS.Arr.Members
import AlopexOS.Arr.Slots
import AlopexOS.Arr.Contents
import AlopexOS.Arr.Refinement
import AlopexOS.Arr.Views
import AlopexOS.Arr.SelfAppend
import AlopexOS.Lib.ByteLoops
import AlopexOS.Strings.BasicString
import AlopexOS.Abtrfs.Target
import AlopexOS.Avfs.Avfs
import AlopexOS.Avfs.Drives
import AlopexOS.Avfs.Mounted
import AlopexOS.Abtrfs.Remount
import AlopexOS.Abtrfs.Stored
import AlopexOS.Avfs.RoundTrip
import AlopexOS.Avfs.Exists
import AlopexOS.Avfs.Splitters
import AlopexOS.Avfs.Addressing
import AlopexOS.SystemX.Read
import AlopexOS.Abtrfs.Windows
import AlopexOS.Abtrfs.Lookup
import AlopexOS.Abtrfs.Identity
import AlopexOS.Abtrfs.WriteBounds
import AlopexOS.Abtrfs.Provenance
import AlopexOS.Pci.ConfigSpace
import AlopexOS.Pci.Pcie
import AlopexOS.Pci.IBus
import AlopexOS.Pci.Agreement
import AlopexOS.Acpi.Tables
import AlopexOS.Acpi.Ecam
import AlopexOS.Lib.DigitalLine
import AlopexOS.Kernel.Display
import AlopexOS.Kernel.Lines
import AlopexOS.Kernel.Rectangles
import AlopexOS.Strings.Contents
import AlopexOS.Strings.Refinement
import AlopexOS.Strings.Comparison
import AlopexOS.Lib.Tokens
import AlopexOS.Abtrfs.Segments
import AlopexOS.Lib.BlockStore
import AlopexOS.Abtrfs.FileStore
import AlopexOS.Abtrfs.StoreRuns
import AlopexOS.Avfs.StoreRuns
import AlopexOS.Lib.Serving
import AlopexOS.Nvme.Moving
import AlopexOS.Nvme.Driver
import AlopexOS.Nvme.Confinement
import AlopexOS.Lib.ObjectStore
import AlopexOS.Kernel.HeapObjects
import AlopexOS.Pci.BusMaster
import AlopexOS.Lib.Painting
import AlopexOS.Kernel.Screens
import AlopexOS.Kernel.Boot
import AlopexOS.Nvme.Registers
