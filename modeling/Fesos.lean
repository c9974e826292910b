import Fesos.Library.Runs
import Fesos.Library.Bitmaps
import Fesos.Library.BinaryTrees
import Fesos.Library.Tiling
import Fesos.Library.Chains
import Fesos.Machine
import Fesos.Pmm
import Fesos.PmmScan
import Fesos.PmmOwnership
import Fesos.PmmCount
import Fesos.Vmm
import Fesos.VmmTables
import Fesos.VmmMap
import Fesos.VmmHistory
import Fesos.VmmFrameZero
import Fesos.Avl
import Fesos.AvlShape
import Fesos.AvlBalance
import Fesos.AvlInsert
import Fesos.AvlWalk
import Fesos.AvlRemove
import Fesos.Vma
import Fesos.VmaLayout
import Fesos.VmaRegions
import Fesos.VmaSplit
import Fesos.VmaAllocate
import Fesos.VmaFree
import Fesos.VmaInit
import Fesos.VmaRuns
import Fesos.Lbd
import Fesos.Pci
import Fesos.PciBinding
import Fesos.Efi
import Fesos.EfiTables
import Fesos.EfiSegments
import Fesos.EfiReservation
import Fesos.EfiPmm
import Fesos.Vfs
import Fesos.VfsCounts
import Fesos.Kmalloc
import Fesos.KmallocLists
import Fesos.KmallocBlocks
import Fesos.KmallocRuns
import Fesos.VmaSequence
import Fesos.VmaAlignment
import Fesos.KmallocAlignment
import Fesos.AvlWellFormed
import Fesos.AvlRemovable
import Fesos.PmmFirstFit
import Fesos.VmaCoalesce
import Fesos.VmaSearch
import Fesos.VmaWorstFit
import Fesos.VmaRefusal
import Fesos.VmaUnback
import Fesos.VfsCache
import Fesos.VfsLookup
import Fesos.VfsMount
import Fesos.VmmKept
import Fesos.VmmConflict
import Fesos.VmaFault
import Fesos.Interrupts
import Fesos.VmmPin
import Fesos.VmaMisfree
import Fesos.VmaGrant
import Fesos.VmaSupply
import Fesos.Mmio
import Fesos.MmioUndo
import Fesos.Dma
import Fesos.VmaCarved
import Fesos.KmallocReturn
import Fesos.DmaFailure
import Fesos.KmallocCapacity
import Fesos.LbdTransfer
import Fesos.Ahci
import Fesos.AhciPrdt
import Fesos.AhciDevice
import Fesos.Ramfs
import Fesos.VfsPath
import Fesos.AhciInit
import Fesos.AhciRoom
import Fesos.KmallocPage
import Fesos.VfsErrors
import Fesos.Stdstr
