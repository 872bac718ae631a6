import UcoreKernel.Sched.Timer
import UcoreKernel.Sync.Sem
import UcoreKernel.Fs.FileTable
import UcoreKernel.Sched.RunQueues
import UcoreKernel.Fs.Sfs.Openers
import UcoreKernel.Mm.PageCount
import UcoreKernel.Mm.UserStrings
import UcoreKernel.Mm.PageFault
import UcoreKernel.Fs.Sfs.Sync
import UcoreKernel.Sync.MboxRuns
import UcoreKernel.Fs.Reclaim
import UcoreKernel.Fs.PipeLock
import UcoreKernel.Fs.Sfatfs.Image
import UcoreKernel.Module.Pools
import UcoreKernel.Process.Pid
import UcoreKernel.Sync.Event
import UcoreKernel.Fs.Sfatfs.WriteBack
import UcoreKernel.Fs.Sfs.DirtyFlag
import UcoreKernel.Fs.Sfs.ParentLookup
import UcoreKernel.Mm.Brk
import UcoreKernel.Process.SegmentBytes
import UcoreKernel.Fs.PipeWrap
import UcoreKernel.Fs.Stdin
import UcoreKernel.Fs.Sfs.Listing
import UcoreKernel.Fs.Sfs.Deletion
import UcoreKernel.Fs.Sfs.Bitmap
import UcoreKernel.Fs.Sfs.Consistency
import UcoreKernel.Fs.Sfs.Contents
import UcoreKernel.User.Malloc
import UcoreKernel.Sync.MsgSeg
import UcoreKernel.Libs.Strings
