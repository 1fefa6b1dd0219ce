import BpfElfTools.Lib.Splice
import BpfElfTools.Lib.Store
import BpfElfTools.Lib.Tiling
import BpfElfTools.Lib.Search
import BpfElfTools.Lib.Sort
import BpfElfTools.Insn
import BpfElfTools.Patcher.ClearReloc
import BpfElfTools.Elf
import BpfElfTools.Lib.Script
import BpfElfTools.Patcher.Patch
import BpfElfTools.Patcher.Elf64
import BpfElfTools.Patcher.Failure
import BpfElfTools.Patcher.InPlace
import BpfElfTools.Patcher.Sequence
import BpfElfTools.Patcher.Repeat
import BpfElfTools.Extractor.Object
import BpfElfTools.Lib.Fold
import BpfElfTools.Extractor.Programs
import BpfElfTools.Extractor.Maps
import BpfElfTools.Extractor.Externs
import BpfElfTools.Extractor.Relos
import BpfElfTools.Extractor.Open
import BpfElfTools.Lib.Text
import BpfElfTools.Extractor.Relocate
import BpfElfTools.Extractor.Dump
import BpfElfTools.Lib.Scan
import BpfElfTools.Extractor.Readback
import BpfElfTools.Extractor.Attribution
import BpfElfTools.Extractor.UserMaps
import BpfElfTools.Extractor.Files
import BpfElfTools.Lib.Descriptors
import BpfElfTools.Extractor.Close
import BpfElfTools.Extractor.Collisions
import BpfElfTools.Extractor.Referents
import BpfElfTools.Extractor.Uninit
import BpfElfTools.Extractor.ReadFiles
import BpfElfTools.Extractor.InRange
import BpfElfTools.Extractor.Relocated
import BpfElfTools.RoundTrip
import BpfElfTools.OldExtractor.Load
import BpfElfTools.OldExtractor.Maps
import BpfElfTools.Lib.Writes
import BpfElfTools.OldExtractor.Apply
import BpfElfTools.OldExtractor.Select
import BpfElfTools.OldExtractor.WellFormed
import BpfElfTools.OldExtractor.Main
import BpfElfTools.PatchBack
import BpfElfTools.Agreement
