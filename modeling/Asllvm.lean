import Asllvm.Lib.Runs
import Asllvm.Lib.Slots
import Asllvm.Lib.Bytes
import Asllvm.AngelScript
import Asllvm.Bytecode
import Asllvm.Ir
import Asllvm.Emit
import Asllvm.StackFrame
import Asllvm.Calls
import Asllvm.Translate
import Asllvm.FunctionBuilder
import Asllvm.EmitRuns
import Asllvm.Effects
import Asllvm.Preprocess
import Asllvm.Placement
import Asllvm.ControlFlow
import Asllvm.Successors
import Asllvm.Blocks
import Asllvm.Exec
import Asllvm.BytecodeCfg
import Asllvm.ScriptCalls
import Asllvm.CallFrames
import Asllvm.SystemCalls
import Asllvm.StackDepth
import Asllvm.Host
import Asllvm.VmEntry
import Asllvm.EntryContract
import Asllvm.Activation
import Asllvm.Lib.Acyclic
import Asllvm.DebugTypes
import Asllvm.JumpTables
import Asllvm.RunTimeIndices
import Asllvm.Arithmetic
import Asllvm.Conditions
import Asllvm.NullChecks
import Asllvm.ReturnValues
import Asllvm.Remaining
import Asllvm.Behaviours
import Asllvm.Walk
import Asllvm.Conversions
import Asllvm.CallChains
import Asllvm.CallingFunction
import Asllvm.Unwinding
import Asllvm.ListBuffers
import Asllvm.Traces
import Asllvm.Allocation
import Asllvm.Prologue
import Asllvm.FactoryStubs
import Asllvm.Lib.UniqueNames
import Asllvm.Lib.Splits
import Asllvm.ModuleBuilder
import Asllvm.JitCompiler
import Asllvm.BuiltModules
import Asllvm.Linking
import Asllvm.Interleaving
import Asllvm.CallBinding
import Asllvm.Devirtualization
import Asllvm.Lib.Lockstep
import Asllvm.Lib.Cells
import Asllvm.Interpreter
import Asllvm.VmVariables
import Asllvm.InstructionCode
import Asllvm.Simulation
import Asllvm.WholeCalls
import Asllvm.Compilation
