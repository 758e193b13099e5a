import LightNvm.Runs
import LightNvm.Blocks
import LightNvm.DevMem
import LightNvm.SpdkMem
import LightNvm.BbtMem
import LightNvm.BbtMemSpdk
import LightNvm.LbdMem
import LightNvm.SglMem
import LightNvm.Striping
import LightNvm.SizeLoop
import LightNvm.FlatArray
import LightNvm.ListRel
import LightNvm.Addr
import LightNvm.RawAddr
import LightNvm.NumText
import LightNvm.CliArgs
import LightNvm.AddrFormat
import LightNvm.NocdVector
import LightNvm.Bbt
import LightNvm.BbtFlush
import LightNvm.BbtUpdate
import LightNvm.BbtCached
import LightNvm.BbtUncached
import LightNvm.BbtSwitch
import LightNvm.Vblk
import LightNvm.VblkS20
import LightNvm.S20Units
import LightNvm.AsyncPlacement
import LightNvm.AsyncQuiet
import LightNvm.AsyncReap
import LightNvm.RetsLost
import LightNvm.VblkSpdk
import LightNvm.LbdFile
import LightNvm.S20Flat
import LightNvm.SyncBound
import LightNvm.VblkAlloc
import LightNvm.AsyncLoop
import LightNvm.VblkS12
import LightNvm.S12Spages
import LightNvm.S12Flat
import LightNvm.OrderedTeam
import LightNvm.WriteOrder
import LightNvm.IoContract
import LightNvm.IoContractS12
import LightNvm.Cursors
import LightNvm.WriteCut
import LightNvm.VblkCopy
import LightNvm.DevOpts
import LightNvm.SlotPool
import LightNvm.RetsPool
import LightNvm.VblkModes
import LightNvm.LbdAsync
import LightNvm.LbdGetevents
import LightNvm.LbdTransfers
import LightNvm.SpdkAsync
import LightNvm.Tiling
import LightNvm.ChunkReport
import LightNvm.SpdkSync
import LightNvm.LockTeam
import LightNvm.SeqZone
import LightNvm.VblkCut
import LightNvm.VblkLog
import LightNvm.VblkLogRuns
import LightNvm.SpdkTeam
import LightNvm.SpdkTeamCalls
import LightNvm.SpdkTeamLive
import LightNvm.BitFields
import LightNvm.AddrConv
import LightNvm.AddrLossless
import LightNvm.ScalarVector
import LightNvm.CmdWrap
import LightNvm.Sgl
import LightNvm.Pfile
import LightNvm.Populate
import LightNvm.NocdGeo
import LightNvm.SglFail
import LightNvm.GbbtArbs
import LightNvm.RprtArbs
import LightNvm.BbtMark
import LightNvm.BbtCounters
import LightNvm.Erase
import LightNvm.VblkPad
import LightNvm.LpoConv
import LightNvm.BatchLoop
import LightNvm.RprtBounds
