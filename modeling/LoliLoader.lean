import LoliLoader.Text.Lines
import LoliLoader.Text.Words
import LoliLoader.Extlinux.Parser
import LoliLoader.Extlinux.Reference
import LoliLoader.Extlinux.Scan
import LoliLoader.Extlinux.Match
import LoliLoader.Extlinux.Enumerate
import LoliLoader.Extlinux.Lookup
import LoliLoader.Extlinux.Safety
import LoliLoader.C.Console
import LoliLoader.C.String
import LoliLoader.Menu.Config
import LoliLoader.Menu.Loop
import LoliLoader.Menu.Listing
import LoliLoader.Menu.Options
import LoliLoader.Menu.Default
import LoliLoader.Menu.Select
import LoliLoader.Menu.Number
import LoliLoader.Bytes.LittleEndian
import LoliLoader.C.Buffer
import LoliLoader.C.Compare
import LoliLoader.Graphics.Font
import LoliLoader.Graphics.Console
import LoliLoader.Graphics.Terminal
import LoliLoader.Graphics.Pixels
import LoliLoader.Graphics.Simulation
import LoliLoader.Graphics.Damage
import LoliLoader.Graphics.Write
import LoliLoader.Boot.Entry
import LoliLoader.Boot.Steps
import LoliLoader.Boot.Outcome
import LoliLoader.Boot.Silent
import LoliLoader.Boot.Loading
import LoliLoader.Boot.Handles
import LoliLoader.Boot.Devicetree
import LoliLoader.Boot.Initrd
import LoliLoader.Boot.Attempt
import LoliLoader.Boot.Failure
import LoliLoader.Boot.Success
import LoliLoader.Boot.Path
import LoliLoader.Bytes.Record
import LoliLoader.Bytes.Space
import LoliLoader.Elf2Efi.Executable
import LoliLoader.Elf2Efi.Relocate
import LoliLoader.Pe.BaseReloc
import LoliLoader.Elf2Efi.RelocTable
import LoliLoader.Elf2Efi.RelocBlocks
import LoliLoader.Elf2Efi.Apply
import LoliLoader.Elf2Efi.Plan
import LoliLoader.Elf2Efi.WritePe
import LoliLoader.Pe.Loader
import LoliLoader.Elf2Efi.WriteSpec
import LoliLoader.Elf2Efi.ReadBack
import LoliLoader.Elf2Efi.Image
import LoliLoader.Elf2Efi.Passes
import LoliLoader.Elf2Efi.Preserve
import LoliLoader.Elf2Efi.HeaderRoom
import LoliLoader.Elf2Efi.Slots
import LoliLoader.C.Gaps
import LoliLoader.Elf2Efi.Elf
import LoliLoader.Elf2Efi.Parse
import LoliLoader.Elf2Efi.Tables
import LoliLoader.Elf2Efi.Parsed
import LoliLoader.Elf2Efi.Dynamic
import LoliLoader.Elf2Efi.Mapped
import LoliLoader.Pe.RawData
import LoliLoader.Elf2Efi.Layout
import LoliLoader.Elf2Efi.Placement
import LoliLoader.Elf2Efi.Agreement
import LoliLoader.Elf2Efi.Access
import LoliLoader.Elf2Efi.CommonAlignment
import LoliLoader.Elf2Efi.Ordering
import LoliLoader.Elf2Efi.Growth
import LoliLoader.Elf2Efi.Allocator
import LoliLoader.C.Format
import LoliLoader.C.Printf
import LoliLoader.Interaction.Output
import LoliLoader.Interaction.Messages
import LoliLoader.Interaction.Input
import LoliLoader.Interaction.Line
import LoliLoader.Interaction.Serial
import LoliLoader.Interaction.Timer
import LoliLoader.Menu.Shown
import LoliLoader.Boot.Said
import LoliLoader.Boot.Session
import LoliLoader.X86.Machine
import LoliLoader.X86.Convention
import LoliLoader.X86.Symbolic
import LoliLoader.X86.Discipline
import LoliLoader.EfiCall.Stubs
import LoliLoader.Bytes.Mask
import LoliLoader.Bytes.Seek
import LoliLoader.Pe.RawBlocks
import LoliLoader.Pe.SectionTable
import LoliLoader.PyElf2Efi.Elf
import LoliLoader.PyElf2Efi.Sections
import LoliLoader.PyElf2Efi.Relocations
import LoliLoader.PyElf2Efi.WritePe
import LoliLoader.PyElf2Efi.Grouping
import LoliLoader.PyElf2Efi.Layout
import LoliLoader.PyElf2Efi.Relocated
import LoliLoader.PyElf2Efi.Tables
import LoliLoader.PyElf2Efi.Prepare
import LoliLoader.PyElf2Efi.Written
import LoliLoader.PyElf2Efi.ReadBack
import LoliLoader.PyElf2Efi.Preserve
import LoliLoader.PyElf2Efi.Valid
import LoliLoader.Runs.Ensures
import LoliLoader.Runs.Relates
import LoliLoader.Interaction.Delivery
import LoliLoader.Interaction.Printable
import LoliLoader.Boot.Talks
import LoliLoader.Boot.Faults
import LoliLoader.Interaction.Phases
import LoliLoader.Main.Machine
import LoliLoader.Main.SetUp
import LoliLoader.Main.Program
import LoliLoader.Main.Printed
import LoliLoader.Main.Prompts
import LoliLoader.Main.Rounds
import LoliLoader.Main.Config
import LoliLoader.Main.Devices
import LoliLoader.Main.Boots
import LoliLoader.Main.Stops
import LoliLoader.Main.Shown
import LoliLoader.Bytes.Pieces
import LoliLoader.Elf2Efi.File
import LoliLoader.Elf2Efi.FileRelocs
import LoliLoader.Elf2Efi.FilePreserve
import LoliLoader.Text.Spaced
import LoliLoader.Extlinux.Document
import LoliLoader.Extlinux.RoundTrip
