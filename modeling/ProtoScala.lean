import ProtoScala.Compiler.ByNameArguments
import ProtoScala.Compiler.ByNameReads
import ProtoScala.Compiler.Bytecode
import ProtoScala.Compiler.ConstantPool
import ProtoScala.Compiler.CppTables
import ProtoScala.Compiler.CppTablesBlocks
import ProtoScala.Compiler.CppTablesConsts
import ProtoScala.Compiler.CppTablesRead
import ProtoScala.Compiler.Emission
import ProtoScala.Compiler.FinallyCopies
import ProtoScala.Compiler.Globals
import ProtoScala.Compiler.Hierarchies
import ProtoScala.Compiler.InitialisationOrder
import ProtoScala.Compiler.InstructionWords
import ProtoScala.Compiler.MatchFaithful
import ProtoScala.Compiler.PatternFaithful
import ProtoScala.Compiler.PatternFragments
import ProtoScala.Compiler.Patterns
import ProtoScala.Compiler.SessionKeys
import ProtoScala.Compiler.SessionTables
import ProtoScala.Compiler.StackDepths
import ProtoScala.Compiler.Templates
import ProtoScala.Debugger.Breakpoints
import ProtoScala.Debugger.PathMappings
import ProtoScala.Debugger.Transport
import ProtoScala.Frontend.CharacterBoundaries
import ProtoScala.Frontend.ComprehensionReading
import ProtoScala.Frontend.Comprehensions
import ProtoScala.Frontend.Desugaring
import ProtoScala.Frontend.Evaluation
import ProtoScala.Frontend.InfixParsing
import ProtoScala.Frontend.Layout
import ProtoScala.Frontend.LayoutNesting
import ProtoScala.Frontend.LayoutTokens
import ProtoScala.Frontend.LayoutWidths
import ProtoScala.Frontend.Lexer
import ProtoScala.Frontend.LexerRuns
import ProtoScala.Frontend.LineStarts
import ProtoScala.Frontend.Linearizer
import ProtoScala.Frontend.LiteralText
import ProtoScala.Frontend.NumberLiterals
import ProtoScala.Frontend.Operators
import ProtoScala.Frontend.Syntax
import ProtoScala.Frontend.TemplateLifting
import ProtoScala.Frontend.UnicodeLetters
import ProtoScala.Frontend.UnitDefs
import ProtoScala.Frontend.UnitResults
import ProtoScala.Library.AncestorOrder
import ProtoScala.Library.Completions
import ProtoScala.Library.CppLiterals
import ProtoScala.Library.Delegation
import ProtoScala.Library.Effects
import ProtoScala.Library.Gathering
import ProtoScala.Library.HashedMaps
import ProtoScala.Library.Interning
import ProtoScala.Library.LinkedChain
import ProtoScala.Library.Matching
import ProtoScala.Library.Nesting
import ProtoScala.Library.OperatorTrees
import ProtoScala.Library.Outlines
import ProtoScala.Library.Preorder
import ProtoScala.Library.Processes
import ProtoScala.Library.Propagation
import ProtoScala.Library.PublishOnce
import ProtoScala.Library.QueueHistory
import ProtoScala.Library.RecordTables
import ProtoScala.Library.Searching
import ProtoScala.Library.Simulation
import ProtoScala.Library.SortedRuns
import ProtoScala.Library.StackHistory
import ProtoScala.Library.Stages
import ProtoScala.Library.Threads
import ProtoScala.Library.Utf8
import ProtoScala.Repl.ImportCycles
import ProtoScala.Repl.ModuleLoading
import ProtoScala.Repl.ModuleOnce
import ProtoScala.Runtime.ActorScheduler
import ProtoScala.Runtime.CallerSlots
import ProtoScala.Runtime.Calls
import ProtoScala.Runtime.CaseClassCopy
import ProtoScala.Runtime.ExecutionEngine
import ProtoScala.Runtime.FieldGroups
import ProtoScala.Runtime.Formatting
import ProtoScala.Runtime.FrameExecution
import ProtoScala.Runtime.Hashing
import ProtoScala.Runtime.IntegerArithmetic
import ProtoScala.Runtime.Iterators
import ProtoScala.Runtime.KeyedCollections
import ProtoScala.Runtime.KeyedFaithful
import ProtoScala.Runtime.KeyedMeaning
import ProtoScala.Runtime.LazyValues
import ProtoScala.Runtime.LineReading
import ProtoScala.Runtime.MailboxList
import ProtoScala.Runtime.MapEntries
import ProtoScala.Runtime.ParameterBinding
import ProtoScala.Runtime.PreludeGlobals
import ProtoScala.Runtime.PreludeImage
import ProtoScala.Runtime.RangeElements
import ProtoScala.Runtime.RangeMethods
import ProtoScala.Runtime.ReadyStack
import ProtoScala.Runtime.ReadyStackLinearization
import ProtoScala.Runtime.ReadyStackPool
import ProtoScala.Runtime.SchedulerClaims
import ProtoScala.Runtime.SchedulerContinuations
import ProtoScala.Runtime.SchedulerDelivery
import ProtoScala.Runtime.SchedulerFailures
import ProtoScala.Runtime.SchedulerFutures
import ProtoScala.Runtime.SchedulerSuspension
import ProtoScala.Runtime.SchedulerTurns
import ProtoScala.Runtime.SchedulerWakeups
import ProtoScala.Runtime.SequenceEquality
import ProtoScala.Runtime.Sorting
import ProtoScala.Runtime.StringSearch
import ProtoScala.Runtime.SuperDispatch
import ProtoScala.Runtime.SuspendedCounter
import ProtoScala.Runtime.Suspension
import ProtoScala.Runtime.Utf8Validation
import ProtoScala.Runtime.ValueEquality
import ProtoScala.Runtime.ValueFacts
import ProtoScala.Runtime.Values
import ProtoScala.Runtime.WithFilters
import ProtoScala.Runtime.WorkerPermits
import ProtoScala.Runtime.WorkerPool
