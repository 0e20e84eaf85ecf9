import Famicom.Main
import Famicom.Timing.FramePeriod
import Famicom.Proofs.Machine.Access
import Famicom.Proofs.Machine.Cycle
import Famicom.Proofs.Bus.Effects
import Famicom.Proofs.Machine.Instruction
import Famicom.Proofs.Machine.Tracing
import Famicom.Proofs.Console.Reachable
import Famicom.Proofs.Machine.Entry
import Famicom.Proofs.Console.Nmi
import Famicom.Proofs.Picture.Direct
import Famicom.Proofs.Picture.Pipeline
import Famicom.Proofs.Picture.Fetching
import Famicom.Proofs.Picture.Scan
import Famicom.Proofs.Cartridge.SerialPort
import Famicom.Proofs.Cartridge.Format
import Famicom.Proofs.Cartridge.Windows
import Famicom.Proofs.Safety.Check
import Famicom.Proofs.Safety.Cartridge
import Famicom.Proofs.Safety.Picture
import Famicom.Proofs.Safety.Sound
import Famicom.Proofs.Safety.Bus
import Famicom.Proofs.Safety.Processor
import Famicom.Proofs.Console.Lockstep
import Famicom.Proofs.Picture.Freshness
import Famicom.Proofs.Picture.Raster
import Famicom.Proofs.Picture.SpriteLine
import Famicom.Proofs.Machine.Transfer
import Famicom.Proofs.Console.Transfer
import Famicom.Proofs.Console.Interrupts
import Famicom.Proofs.Console.Command
import Famicom.Proofs.Safety.Console
import Famicom.Proofs.Console.PowerCycle
import Famicom.Proofs.Sound.Schedule
import Famicom.Proofs.Picture.Blanking
import Famicom.Proofs.Sound.Pacing
import Famicom.Proofs.Sound.Lengths
import Famicom.Proofs.Machine.Control
import Famicom.Proofs.Machine.Stack
import Famicom.Proofs.Machine.Return
import Famicom.Proofs.Picture.FirstSprite
import Famicom.Proofs.Cartridge.Cells
import Famicom.Proofs.Picture.DataPort
import Famicom.Proofs.Picture.ScrollPort
import Famicom.Proofs.Bus.History
import Famicom.Proofs.Bus.Controllers
import Famicom.Proofs.Bus.Isolation
import Famicom.Proofs.Machine.Arithmetic
import Famicom.Proofs.Sound.Queue
import Famicom.Proofs.Cartridge.Tables
import Famicom.Proofs.Machine.Combined
import Famicom.Proofs.Machine.Resolution
import Famicom.Proofs.Safety.Payload
import Famicom.Proofs.Sound.Decay
import Famicom.Proofs.Sound.Ranges
import Famicom.Proofs.Sound.Frequency
import Famicom.Proofs.Timing.Division
import Famicom.Proofs.Picture.Confinement
import Famicom.Proofs.Machine.StatusMarks
import Famicom.Proofs.Picture.ScrollCounters
import Famicom.Proofs.Sound.ShiftRegister
import Famicom.Proofs.Picture.Fingerprint
import Famicom.Proofs.Cartridge.Folding
