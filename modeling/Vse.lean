import Vse.Classification
import Vse.MatcherLaws
import Vse.CommandLine
import Vse.WordReading
import Vse.ToolContracts
import Vse.LiveRules
import Vse.Sessions
import Vse.HandlingLaws
import Vse.InterleavedSteering
import Vse.ConcurrentLookUps
import Vse.CoreLifecycle
import Vse.ModuleLife
import Vse.Unload
import Vse.LinkedTable
import Vse.SettablePolicies
import Vse.RacingTools
import Vse.ConcurrentHandling
