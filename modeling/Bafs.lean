import Bafs.Lib.Binary
import Bafs.Lib.BinarySearch
import Bafs.Lib.Hoare
import Bafs.Lib.WriteLog
import Bafs.Lib.Crc
import Bafs.Lib.Xxh64
import Bafs.Lib.CowTree
import Bafs.Lib.CowTree.Ordered
import Bafs.Lib.CowTree.Select
import Bafs.Lib.CowTree.Update
import Bafs.Lib.CowTree.Rewrite
import Bafs.Lib.CowTree.Search
import Bafs.Lib.CowTree.Path
import Bafs.Error
import Bafs.Checksum
import Bafs.Crc32c
import Bafs.Device
import Bafs.Superblock
import Bafs.Btree.Node
import Bafs.Btree.Decode
import Bafs.Btree.Codec
import Bafs.Btree.Tree
import Bafs.Btree.Layout
import Bafs.Btree.Stored
import Bafs.Btree.Read
import Bafs.Btree.Write
import Bafs.Btree.Insert
import Bafs.Btree.Delete
import Bafs.Btree.Map
import Bafs.Btree.Scan
import Bafs.Btree.Contract
import Bafs.Btree.Reach
import Bafs.Btree.Shape
import Bafs.Inode
import Bafs.Extent
import Bafs.Dir
import Bafs.Xxhash
import Bafs.ChecksumTree
import Bafs.FreeTree
import Bafs.FreeTree.Coalesced
import Bafs.Journal
import Bafs.Volume
import Bafs.Volume.Frame
import Bafs.Volume.Recycle
import Bafs.Volume.Records
import Bafs.Volume.Store
import Bafs.Volume.Account
import Bafs.Volume.Edit
import Bafs.Volume.Create
import Bafs.Volume.Write
import Bafs.Volume.Unlink
import Bafs.Volume.Sound
import Bafs.Volume.View
import Bafs.Volume.Disk
import Bafs.Volume.Commit
import Bafs.Volume.Recovery
import Bafs.Volume.Format
import Bafs.Volume.Run
import Bafs.Volume.Names
import Bafs.Volume.Links
import Bafs.Volume.Namespace
import Bafs.Volume.Bytes
import Bafs.Volume.Files
import Bafs.Volume.Extents
import Bafs.Volume.Crash
import Bafs.Volume.Checked
import Bafs.Volume.Space
import Bafs.Btree.Split
import Bafs.Btree.Failure
import Bafs.Btree.Isolation
import Bafs.Btree.Traversal
import Bafs.Volume.Fresh
import Bafs.Volume.FreeSpace
import Bafs.Volume.FreeSound
import Bafs.Volume.Levels
import Bafs.Volume.Replay
import Bafs.Volume.Retry
import Bafs.Volume.Live
import Bafs.Volume.Leaf
import Bafs.Volume.Torn
import Bafs.Kernel
import Bafs.FileSystem
import Bafs.Volume.Refine
import Bafs.Volume.Trace
import Bafs.Volume.Onward
import Bafs.Volume.Snapshot
import Bafs.Volume.Exhaust
import Bafs.Volume.Tear
import Bafs.Volume.Power
import Bafs.Volume.Backup
import Bafs.Kernel.Call
import Bafs.Kernel.Session
import Bafs.Tools
import Bafs.Tools.Image
import Bafs.Tools.Archive
import Bafs.Tools.Commands
import Bafs.Tools.Transcript
