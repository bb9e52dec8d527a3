import AsmKit.Lib.Bytes
import AsmKit.Lib.SignedField
import AsmKit.Lib.Machine
import AsmKit.Lib.Pattern
import AsmKit.Lib.Run
import AsmKit.Core.Types
import AsmKit.Core.Bits
import AsmKit.Core.Engine
import AsmKit.X86.Emit
import AsmKit.A64.Emit
import AsmKit.Arm.Emit
import AsmKit.Isa.Nzcv
import AsmKit.Isa.It
import AsmKit.Isa.A64
import AsmKit.Isa.A64PcRel
import AsmKit.Isa.A32
import AsmKit.Isa.X86
import AsmKit.Core.Target
import AsmKit.Lib.Words
import AsmKit.Core.Features
import AsmKit.Encode.Emit
import AsmKit.X86.Branches
import AsmKit.Encode.Spec
import AsmKit.A64.Branches
import AsmKit.Arm.Branches
import AsmKit.Encode.Contract
import AsmKit.A64.Operands
import AsmKit.A64.Decode
import AsmKit.Core.Semantics
import AsmKit.A64.Relocate
import AsmKit.A64.PcRelRows
import AsmKit.A64.PcRelDecode
import AsmKit.A64.RelocatePcRel
import AsmKit.A64.Expand
import AsmKit.Arm.Decode
import AsmKit.Arm.Rows
import AsmKit.Arm.Relocate
import AsmKit.X86.Record
import AsmKit.X86.Operands
import AsmKit.X86.Decode
import AsmKit.X86.Relocate
import AsmKit.Decode.Block
import AsmKit.Analysis.Inst
import AsmKit.Relocate.Prologue
import AsmKit.Relocate.Metadata
import AsmKit.Relocate.A64
import AsmKit.Relocate.Arm
import AsmKit.Relocate.ArmPc
import AsmKit.X86.Jcc
import AsmKit.Relocate.Jcc
import AsmKit.Analysis.State
import AsmKit.Text.Arm
import AsmKit.Analysis.Arm
import AsmKit.Analysis.Skip
import AsmKit.Analysis.ItRuns
import AsmKit.Analysis.ItBlock
import AsmKit.Lib.Subtract
import AsmKit.Isa.Compare
import AsmKit.Analysis.Values
import AsmKit.Analysis.Relations
import AsmKit.Analysis.Conditions
import AsmKit.Lib.Places
import AsmKit.Analysis.Compare
import AsmKit.Lib.Tiling
import AsmKit.Decode.Written
import AsmKit.Decode.Errors
import AsmKit.Decode.Layout
import AsmKit.Encode.Capacity
import AsmKit.Relocate.Forms
import AsmKit.Relocate.Loop
import AsmKit.Relocate.Tiles
import AsmKit.Encode.Permission
import AsmKit.Encode.BranchForm
import AsmKit.Relocate.Permission
import AsmKit.Encode.Transfer
import AsmKit.Relocate.Plan
import AsmKit.Relocate.Placed
import AsmKit.Relocate.Announced
import AsmKit.Relocate.Supported
import AsmKit.Relocate.Agree
import AsmKit.Decode.Prior
import AsmKit.Lib.Grown
import AsmKit.Decode.Report
import AsmKit.Relocate.Bound
import AsmKit.Relocate.Covers
import AsmKit.Relocate.Patch
import AsmKit.Relocate.JumpBack
import AsmKit.Analysis.TableBranch
import AsmKit.Analysis.ExtendValues
import AsmKit.Analysis.RelativeTarget
import AsmKit.Encode.RoundTrip
import AsmKit.Analysis.MovWide
import AsmKit.Analysis.ZeroBranch
import AsmKit.Relocate.Room
import AsmKit.Encode.Displacement
import AsmKit.Core.CpuFeatures
import AsmKit.Text.Builder
import AsmKit.Text.Render
import AsmKit.Analysis.Limits
import AsmKit.Decode.Failure
import AsmKit.Decode.Demand
import AsmKit.X86.Demand
import AsmKit.Decode.Truncation
import AsmKit.Lib.Lockstep
import AsmKit.Isa.A64Words
import AsmKit.A64.ForeignRows
import AsmKit.Relocate.Carried
import AsmKit.Relocate.Trampoline
import AsmKit.Lib.Leb128Write
import AsmKit.Wasm.Encode
import AsmKit.Wasm.ReadBack
import AsmKit.Wasm.RoundTrip
import AsmKit.Bpf.Encode
import AsmKit.Bpf.ReadBack
import AsmKit.Bpf.RoundTrip
import AsmKit.Encode.Bytecode
import AsmKit.A64.Elsewhere
import AsmKit.Relocate.Again
