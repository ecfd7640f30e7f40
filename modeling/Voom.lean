import Voom.Discovery.HashReuse
import Voom.Process.FailedPhase
import Voom.Kernel.Registration
import Voom.Dsl.ExtendsCycles
import Voom.Dsl.DeclarationOrder
import Voom.Dsl.TranscodeSettings
import Voom.Evaluator.ScalarComparisons
import Voom.Kernel.Confinement
import Voom.Evaluator.ErrorStrategy
import Voom.Evaluator.Conflicts
import Voom.Executors.Outcome
import Voom.Executors.Lifecycle
import Voom.Executors.SynthesizedTracks
import Voom.Storage.PostExecution
import Voom.Storage.TransitionLog
import Voom.JobManager.Finality
import Voom.Process.IngestResult
import Voom.Process.PlanTraces
import Voom.Wit.Convert
import Voom.Executors.VmafIterate
import Voom.Executors.CropDetect
import Voom.Discovery.ContentHash
import Voom.Cli.PolicyMap
import Voom.Process.Estimate
import Voom.Storage.Retention
import Voom.Executors.Loudness
import Voom.Storage.Listing
import Voom.Recovery.SiblingNames
import Voom.Cli.RedactionSafety
import Voom.Wit.Capabilities
import Voom.Executors.ShellQuoting
import Voom.Kernel.UrlHost
import Voom.Plugins.Subtitles
import Voom.Storage.StatsSink
import Voom.Plugins.LanguageDetector
import Voom.PolicyTesting.Assertions
import Voom.Storage.Prune
import Voom.Storage.Integrity
import Voom.Process.PooledFiles
import Voom.Process.EncoderProgress
