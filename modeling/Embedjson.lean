import Embedjson.EventProtocol
import Embedjson.TokenIndependence
import Embedjson.Switches
import Embedjson.Lexer.Lockstep
import Embedjson.Lexer.NumberFields
import Embedjson.StringDecoding
import Embedjson.CallbackFailures
import Embedjson.BignumTokens
import Embedjson.Utf8Soundness
import Embedjson.Utf8Completeness
import Embedjson.EndOfInput
import Embedjson.ChunkIndependence
import Embedjson.Acceptance
import Embedjson.Parser.Stream
import Embedjson.DynamicStack
import Embedjson.IntegerAccumulation
import Embedjson.PowerTable
import Embedjson.IntegerRange
import Embedjson.BignumLiterals
import Embedjson.NumberAcceptance
import Embedjson.NumberTokens
import Embedjson.PackedStack
import Embedjson.ExponentRange
import Embedjson.FractionValue
import Embedjson.StackLimits
import Embedjson.RejectedTokens
import Embedjson.Separators
import Embedjson.Lexer.NumberEnds
import Embedjson.EncodingGuess
import Embedjson.Lexer.Departures
import Embedjson.LoopProgress
import Embedjson.ErrorPositions
import Embedjson.DocumentLanguage
import Embedjson.Linting
import Embedjson.ViablePrefixes
import Embedjson.DocumentEnds
import Embedjson.SyntaxDiagram
import Embedjson.Expressible
import Embedjson.DynamicDocuments
import Embedjson.StackMemory
import Embedjson.LintingMemory
import Embedjson.DebugBuilds
