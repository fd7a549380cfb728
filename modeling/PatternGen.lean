import PatternGen.Main
import PatternGen.Proofs.CapturedText
import PatternGen.Proofs.CharacterRuns
import PatternGen.Proofs.CodeSet.Recipe
import PatternGen.Proofs.Dialects
import PatternGen.Proofs.Expansion
import PatternGen.Proofs.InlineFlags
import PatternGen.Proofs.Interleaving
import PatternGen.Proofs.Lexemes.Written
import PatternGen.Proofs.PrefixCode
import PatternGen.Proofs.ShownLogs
import PatternGen.Proofs.SpelledWord
import PatternGen.Proofs.StraightLine
import PatternGen.Proofs.CodeSet.Numbering
import PatternGen.Proofs.LogGrammar
import PatternGen.Proofs.RepeatCap
import PatternGen.Proofs.LetterCase
import PatternGen.Proofs.PriorLog
