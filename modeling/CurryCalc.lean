import CurryCalc.Library
import CurryCalc.Main
import CurryCalc.Proofs.ViablePrefix
import CurryCalc.Proofs.ProgramSafety
import CurryCalc.Proofs.RoundTrip
import CurryCalc.Proofs.Reporting
import CurryCalc.Proofs.SessionRun
import CurryCalc.Proofs.ArgumentIndices
import CurryCalc.Proofs.TextParts
import CurryCalc.Proofs.PlainPrograms
import CurryCalc.Proofs.SessionNames
import CurryCalc.Proofs.Trimming
import CurryCalc.Proofs.CommentScope
import CurryCalc.Proofs.LineGroups
import CurryCalc.Proofs.ShellPrompt
import CurryCalc.Proofs.ScriptText
import CurryCalc.Proofs.ShellScript
import CurryCalc.Proofs.SpacedWords
import CurryCalc.Proofs.CanonicalSource
import CurryCalc.Proofs.BuilderCache
import CurryCalc.Proofs.ShellSafety
import CurryCalc.Proofs.Wording
import CurryCalc.Proofs.ValueWords
import CurryCalc.Proofs.CommandSession
import CurryCalc.Proofs.Surroundings
import CurryCalc.Proofs.Substitution
import CurryCalc.Proofs.Arity
import CurryCalc.Proofs.Independence
import CurryCalc.Proofs.ExpectedSymbols
import CurryCalc.Proofs.TextPlaces
import CurryCalc.Proofs.NumberGrammar
import CurryCalc.Proofs.Underlining
import CurryCalc.Proofs.WordRules
import CurryCalc.Proofs.WordOffsets
import CurryCalc.Proofs.ReportedColumn
import CurryCalc.Proofs.FrontEnds
import CurryCalc.Proofs.StatementKinds
import CurryCalc.Proofs.NestingDepth
import CurryCalc.Proofs.Lexemes
import CurryCalc.Proofs.MessageTexts
import CurryCalc.Proofs.NumberConversion
import CurryCalc.Proofs.ExactRounding
import CurryCalc.Proofs.NumberTexts
import CurryCalc.Proofs.ShownValues
import CurryCalc.Proofs.TreeListing
import CurryCalc.Proofs.SourceOrder
