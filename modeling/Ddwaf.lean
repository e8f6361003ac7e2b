import Ddwaf.Native.Utf16Utf8.Impl
import Ddwaf.Lib.Utf16
import Ddwaf.Native.Utf16Utf8.Lemmas.GetNextCodepoint
import Ddwaf.Native.Utf16Utf8.Lemmas.WriteCodeunits
import Ddwaf.Native.Utf16Utf8.Lemmas.Checked
import Ddwaf.Native.Utf16Utf8.RoundTrip
import Ddwaf.Native.Json.Impl
import Ddwaf.Native.Json.Lemmas.Read
import Ddwaf.Native.Utf16Utf8.Json.Impl
import Ddwaf.Native.Utf16Utf8.Json.Lemmas
import Ddwaf.Lib.Json.Grammar
import Ddwaf.Lib.Json.Parser
import Ddwaf.Lib.Json.Lemmas.Lexical
import Ddwaf.Lib.Json.Lemmas.Parser
import Ddwaf.Lib.Json.Tokens
import Ddwaf.Native.DdwafObject
import Ddwaf.Native.Output.ConvertJson.Impl
import Ddwaf.Native.Json.Lemmas.Write
import Ddwaf.Native.Output.ConvertJson.Lemmas
import Ddwaf.Native.Output.ConvertJson.RoundTrip
import Ddwaf.Native.Utf16Utf8.Ascii
import Ddwaf.Lib.LinkedMap
import Ddwaf.Native.Output.ConvertObject.Impl
import Ddwaf.Native.Output.ConvertObject.Lemmas
import Ddwaf.Native.Output.ConvertObject.Representation
import Ddwaf.Lib.ModifiedUtf8
import Ddwaf.Lib.System
import Ddwaf.WafBuilder.Impl
import Ddwaf.WafBuilder.Lemmas
import Ddwaf.WafBuilder.Refinement
import Ddwaf.WafHandle.Impl
import Ddwaf.ByteBufferSerializer.Basic
import Ddwaf.WafHandle.Lifetime
import Ddwaf.ByteBufferSerializer.Impl
import Ddwaf.ByteBufferSerializer.Lemmas.Buffers
import Ddwaf.ByteBufferSerializer.Reference
import Ddwaf.ByteBufferSerializer.Lemmas.State
import Ddwaf.ByteBufferSerializer.Lemmas.Strings
import Ddwaf.ByteBufferSerializer.Lemmas.Alloc
import Ddwaf.ByteBufferSerializer.Lemmas.Arrays
import Ddwaf.ByteBufferSerializer.Lemmas.Views
import Ddwaf.ByteBufferSerializer.Lemmas.Records
import Ddwaf.ByteBufferSerializer.Lemmas.Serialize
import Ddwaf.ByteBufferSerializer.Lemmas.Fresh
import Ddwaf.ByteBufferSerializer.Lease
import Ddwaf.ArenaPool.Impl
import Ddwaf.ArenaPool.Ownership
import Ddwaf.ArenaPool.Contexts
import Ddwaf.ByteBufferSerializer.Slots
import Ddwaf.ByteBufferSerializer.Limits
import Ddwaf.Lib.Preorder
import Ddwaf.ByteBufferSerializer.Reported
import Ddwaf.Lib.Utf8Sequence
import Ddwaf.Native.Json.Chain
import Ddwaf.Native.Output.ConvertJson.Failure
import Ddwaf.Native.Output.ConvertAttributes.Impl
import Ddwaf.Native.CreateResult.Impl
import Ddwaf.Native.CreateResult.Faithful
import Ddwaf.WafContext.Impl
import Ddwaf.WafContext.Budget
import Ddwaf.Lib.Traverse
import Ddwaf.ConvertChecked.Impl
import Ddwaf.ConvertChecked.Seen
import Ddwaf.ConvertChecked.Serialize
import Ddwaf.ConvertChecked.Agreement
import Ddwaf.Native.Compat
import Ddwaf.Native.Output.ConvertAttributes.Faithful
import Ddwaf.ByteBufferSerializer.Segments
import Ddwaf.Native.Json.Escape
import Ddwaf.Lib.Decimal
import Ddwaf.WafContext.RunTimeout
import Ddwaf.WafDiagnostics.Impl
import Ddwaf.Native.Output.ConvertDiagnostics.Impl
import Ddwaf.Native.Output.ConvertDiagnostics.Lemmas
import Ddwaf.Native.Output.ConvertDiagnostics.Reproduces
import Ddwaf.Lib.Base64
import Ddwaf.Lib.Compressor
import Ddwaf.Native.Output.EncodeGzip.Impl
import Ddwaf.Native.Output.EncodeGzip.Lemmas
import Ddwaf.Native.Output.EncodeGzip.RoundTrip
import Ddwaf.ConvertChecked.Limits.Impl
import Ddwaf.ConvertChecked.Limits.Bounded
import Ddwaf.ConvertChecked.Limits.Heap
import Ddwaf.ConvertChecked.CharSequence.Impl
import Ddwaf.ConvertChecked.CharSequence.Window
import Ddwaf.Native.Jni.Impl
import Ddwaf.Native.Jni.Lemmas
import Ddwaf.Native.Logging.Impl
import Ddwaf.Native.Logging.Pending
import Ddwaf.WafContext.Pending.Impl
import Ddwaf.WafContext.Pending.Thrown
import Ddwaf.WafContext.Pending.Succeeds
import Ddwaf.WafContext.Pending.Refinement
import Ddwaf.Lib.Transducer
import Ddwaf.Lib.Base64Stream
import Ddwaf.Native.Base64Stream.Impl
import Ddwaf.Native.Base64Stream.Lemmas
import Ddwaf.Native.Base64Stream.Pieces
import Ddwaf.Lib.SharedMemory
import Ddwaf.ByteBufferSerializer.Confined.State
import Ddwaf.ByteBufferSerializer.Confined.Arena
import Ddwaf.ByteBufferSerializer.Confined.Serialize
import Ddwaf.ByteBufferSerializer.Process
import Ddwaf.Lib.Scientific
import Ddwaf.Lib.Emits
import Ddwaf.Native.DebugHelpers.Impl
import Ddwaf.Native.DebugHelpers.Lemmas
import Ddwaf.Native.DebugHelpers.Readable
import Ddwaf.Native.DebugHelpers.Shows
import Ddwaf.Native.DebugHelpers.Roots
import Ddwaf.ArenaPool.Steps
import Ddwaf.ArenaPool.Progress
import Ddwaf.ArenaPool.Session
import Ddwaf.Lib.Holdings
import Ddwaf.Native.JavaCall.Impl
import Ddwaf.Native.JavaCall.Lemmas
import Ddwaf.Native.Library.Impl
import Ddwaf.Native.Library.Lemmas
import Ddwaf.Native.Library.Shape
import Ddwaf.Native.Library.CacheReferences
import Ddwaf.Native.Library.JavaLogInit
import Ddwaf.Native.Library.Load
import Ddwaf.Native.Library.Stage
import Ddwaf.Native.Library.Lifetime
import Ddwaf.Native.Library.Sound
