import UpaScripts.Python.Str
import UpaScripts.Python.Io
import UpaScripts.Python.Re
import UpaScripts.Python.Dict
import UpaScripts.Python.Csv
import UpaScripts.Python.CsvDict
import UpaScripts.Python.Builtins
import UpaScripts.Verification.SplitYulCode
import UpaScripts.LogParsing.UpaLogParser
import UpaScripts.LogParsing.WriteToCsv
import UpaScripts.LogParsing.ConcatenateFiles
import UpaScripts.LogParsing.AverageDuplicates
import UpaScripts.LogParsing.SortCsvByColumns
import UpaScripts.LogParsing.CompileOuterProvingTimes
import UpaScripts.LogParsing.Main
import UpaScripts.Proofs.FindMatchingBrace
import UpaScripts.Proofs.ExtractCodeSections
import UpaScripts.Proofs.KeccakConfiguration
import UpaScripts.Proofs.ParseLogs
import UpaScripts.Proofs.ParseLogsFile
import UpaScripts.Proofs.ConcatenateFiles
import UpaScripts.Proofs.LogPipeline
import UpaScripts.Proofs.AverageDuplicates
import UpaScripts.Proofs.SortCsvByColumns
import UpaScripts.Proofs.OuterConfig
import UpaScripts.Proofs.CompileOuterProvingTimes
import UpaScripts.Proofs.ProcessedTable
import UpaScripts.Proofs.Main
