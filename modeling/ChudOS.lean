import ChudOS.ArgumentStack
import ChudOS.BlockedRead
import ChudOS.BootTables
import ChudOS.ChildWait
import ChudOS.CleanMalloc
import ChudOS.ConsoleCursor
import ChudOS.CopyOnWrite
import ChudOS.DirectoryListing
import ChudOS.ExecveAtomicity
import ChudOS.FileSecrecy
import ChudOS.Filesys.BitmapPrefix
import ChudOS.Filesys.BlockOwnership
import ChudOS.Filesys.DriverSectors
import ChudOS.Filesys.EntryArray
import ChudOS.Filesys.FileContents
import ChudOS.Filesys.Forgetting
import ChudOS.Filesys.LastBlock
import ChudOS.FloppyHandshake
import ChudOS.FloppyTransfer
import ChudOS.ForkRights
import ChudOS.FormatExpansion
import ChudOS.FrameTable
import ChudOS.FreeBlockSet
import ChudOS.InterruptFrames
import ChudOS.KernelHalf
import ChudOS.KeyboardLine
import ChudOS.LowLevel.Descriptors
import ChudOS.LowLevel.InterruptTable
import ChudOS.LowLevel.PageAddress
import ChudOS.LowLevel.Slabs
import ChudOS.MapDisplacement
import ChudOS.NumberText
import ChudOS.PCIScan
import ChudOS.Parenthood
import ChudOS.PathResolution
import ChudOS.PidExhaustion
import ChudOS.RoundRobin
import ChudOS.SectorAddresses
import ChudOS.SignalDelivery
import ChudOS.SignalNesting
import ChudOS.SpaceReclaim
import ChudOS.SpaceTeardown
import ChudOS.StackGrowth
import ChudOS.TerminalOutput
import ChudOS.UsedPages
import ChudOS.UserAccess
