import Dynamips.Lib.Loop
import Dynamips.Lib.Numbering
import Dynamips.ClassBitmap
import Dynamips.InsnLookup
import Dynamips.InsnLookupReload
import Dynamips.PtaskRun
import Dynamips.Lib.Bytes
import Dynamips.Utils
import Dynamips.AtmVsar
import Dynamips.Lib.ByteStore
import Dynamips.UncompressLzc
import Dynamips.FsNvram
import Dynamips.FsNvramRoundTrip
import Dynamips.FsNvramLimit
import Dynamips.EthSwitch
import Dynamips.Lib.Runs
import Dynamips.Lib.TagCache
import Dynamips.EthSwitchRun
import Dynamips.EthSwitchIsolation
import Dynamips.EthSwitchAttachment
import Dynamips.EthSwitchBounds
import Dynamips.Registry
import Dynamips.RegistryIndex
import Dynamips.RegistryRun
import Dynamips.RegistryFailure
import Dynamips.Device
import Dynamips.Mips64
import Dynamips.Mips64Cp0
import Dynamips.Mips64Mem
import Dynamips.Mips64Exec
import Dynamips.Mips64Run
import Dynamips.Mips64ZeroRegister
import Dynamips.Mips64DelaySlot
import Dynamips.Mips64Mmu
import Dynamips.Lib.Scan
import Dynamips.Mips64Tlbp
import Dynamips.Mips64Divide
import Dynamips.Mips64Mts
import Dynamips.Mips64MtsTlb
import Dynamips.Mips64MtsRun
import Dynamips.NetioFifo
import Dynamips.Parser
import Dynamips.ParserQuote
import Dynamips.Nmc93cX6
import Dynamips.RommonVar
import Dynamips.Lib.Limbs
import Dynamips.Ppc32
import Dynamips.Ppc32Carry
import Dynamips.Ppc32Rotate
import Dynamips.Lib.Slots
import Dynamips.Ppc32PageTable
import Dynamips.Ppc32Mem
import Dynamips.Ppc32Mts
import Dynamips.Ppc32Irq
import Dynamips.Lib.CowPages
import Dynamips.SparseRam
import Dynamips.PhysMem
import Dynamips.PhysMemCopy
import Dynamips.PhysMemTransfer
import Dynamips.PhysMemFind
import Dynamips.Mips64Ram
import Dynamips.Ppc32Ram
import Dynamips.Ppc32Host
import Dynamips.Ppc32ExecPage
import Dynamips.Ppc32String
import Dynamips.Ppc405Lookup
import Dynamips.Ppc32MemOps
import Dynamips.SparseRamRun
import Dynamips.Lib.Ring
import Dynamips.Lib.Filters
import Dynamips.Vtty
import Dynamips.Bootflash
import Dynamips.BootflashRun
import Dynamips.PcmciaDisk
import Dynamips.PcmciaDiskRun
import Dynamips.FsFat
import Dynamips.FsFatFormat
import Dynamips.VttyIo
import Dynamips.VttyIoChannel
import Dynamips.Lib.Refs
import Dynamips.CiscoCard
import Dynamips.CiscoCardRun
import Dynamips.Lib.Numerals
import Dynamips.Hypervisor
import Dynamips.HvVm
import Dynamips.HvPlatform
import Dynamips.HvThread
import Dynamips.HvVmRefs
import Dynamips.HvVmKept
import Dynamips.HvVmRun
import Dynamips.HvVmCommands
import Dynamips.Lib.Turns
import Dynamips.Lib.Fragments
import Dynamips.Lib.GuestRam
import Dynamips.RxRing
import Dynamips.TxRing
import Dynamips.Dec21140
import Dynamips.Dec21140Run
import Dynamips.Mueslix
import Dynamips.MueslixRun
import Dynamips.I8255x
import Dynamips.I8255xRoundTrip
import Dynamips.I8255xRun
import Dynamips.Lib.Reassembly
import Dynamips.PaA1Rx
import Dynamips.PaA1RxPackets
import Dynamips.PaA1RxStep
import Dynamips.PaA1RxRun
import Dynamips.Lib.Lzw
import Dynamips.UncompressLzcDecode
import Dynamips.UncompressLzcRun
import Dynamips.FsNvramRead
import Dynamips.FsNvramResidue
import Dynamips.Lib.Mirror
import Dynamips.FsNvramVerify
import Dynamips.Lib.OnesSum
import Dynamips.FsNvramChecksum
import Dynamips.FsNvramVerifyWrite
import Dynamips.NvramConfig
import Dynamips.Am79c971
import Dynamips.Am79c971Rx
import Dynamips.Am79c971Tx
import Dynamips.Bcm5600
import Dynamips.Bcm5600Arl
import Dynamips.Bcm5600Forward
import Dynamips.Bcm5600Ring
import Dynamips.Bcm5600Egress
import Dynamips.Lib.Owners
import Dynamips.Ppc32JitTcb
import Dynamips.Ppc32JitPages
import Dynamips.Ppc32JitTcbRun
import Dynamips.Lib.Amd64
import Dynamips.Ppc32Hreg
import Dynamips.Ppc32JitOp
import Dynamips.Ppc32CrLogic
import Dynamips.Lib.Sweep
import Dynamips.Breakpoints
import Dynamips.Lib.Links
import Dynamips.NetioRxl
import Dynamips.Lib.Buckets
import Dynamips.NetioUsers
import Dynamips.AtmSwitch
import Dynamips.FrameRelay
import Dynamips.FrameRelayRun
import Dynamips.ConnFailure
import Dynamips.Base64
import Dynamips.Base64Compat
import Dynamips.Lib.Tickets
import Dynamips.Timer
import Dynamips.TimerTable
import Dynamips.TimerRun
import Dynamips.TimerExpiry
import Dynamips.VttyIoRun
import Dynamips.InsnLookupCache
import Dynamips.Mips64Virtual
import Dynamips.Mips64Unaligned
import Dynamips.Lib.Crc
import Dynamips.AtmSwitchHeader
import Dynamips.AtmReassembly
import Dynamips.Mips64Clock
import Dynamips.Mips64ExecPage
import Dynamips.EthSwitchDelivery
import Dynamips.EthSwitchTags
import Dynamips.Mips64TlbRound
import Dynamips.Mips64Translate
import Dynamips.Ppc32Translate
import Dynamips.Ppc32JitJump
import Dynamips.FrameRelayLmi
import Dynamips.Lib.RunningTotal
import Dynamips.NetioBandwidth
import Dynamips.NetPacket
import Dynamips.NetPacketChecksum
import Dynamips.MempoolRun
import Dynamips.Mips64Snapshot
import Dynamips.Mips64SnapshotRestore
import Dynamips.Ppc32HregLinks
import Dynamips.Dec21140Mii
import Dynamips.Flash
import Dynamips.Ppc32Spr
import Dynamips.DeviceList
import Dynamips.PciBus
import Dynamips.AtmBridge
import Dynamips.CiscoEeprom
import Dynamips.HvConfig
import Dynamips.HvStore
import Dynamips.GhostImages
