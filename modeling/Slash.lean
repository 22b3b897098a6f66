import Slash.Driver.Batches
import Slash.Cpu.Runs
import Slash.Lib.Run
import Slash.Lib.Update
import Slash.Lib.CountedLoop
import Slash.Lib.Mask
import Slash.Host.Control
import Slash.Rp1.Evidence
import Slash.Host.Fixups
import Slash.Host.Conditions
import Slash.Submit.Faithful
import Slash.Fpga.SlotRuns
import Slash.Vrtd.Arena
import Slash.Vrtd.Anchored
import Slash.Vrtd.Auth
import Slash.Vrtd.ClockRate
import Slash.Vrtd.ClockSearch
import Slash.Vrtd.ReadFile
import Slash.Pass.RegionOrder
import Slash.Pass.Results
import Slash.Pass.Uses
import Slash.Fpga.Identity
import Slash.Fpga.Placement
import Slash.Vrt.Tar
import Slash.Vrt.Buddy
import Slash.Libvrtd.Requests
import Slash.Daemon.Conservation
import Slash.Daemon.Passing
import Slash.Daemon.DesignWrites
import Slash.Daemon.Buffers
import Slash.Daemon.Answered
