import DuckdbOpenzl.Bridge.IndexGrammar
import DuckdbOpenzl.Bridge.TornArchive
import DuckdbOpenzl.Copy.FallbackCount
import DuckdbOpenzl.Copy.InMemory
import DuckdbOpenzl.Copy.RowGroups
import DuckdbOpenzl.Copy.StagingLeft
import DuckdbOpenzl.Copy.AppendedRuns
import DuckdbOpenzl.DucklakePack.PackedRows
import DuckdbOpenzl.DucklakePack.Statements
import DuckdbOpenzl.FileSystem.BufferRuns
import DuckdbOpenzl.FileSystem.ChunkScan
import DuckdbOpenzl.FileSystem.Handle
import DuckdbOpenzl.FileSystem.HandleCalls
import DuckdbOpenzl.FileSystem.LostFlushes
import DuckdbOpenzl.FileSystem.Positional
import DuckdbOpenzl.FileSystem.SerialFallback
import DuckdbOpenzl.FileSystem.SharedBuffers
import DuckdbOpenzl.FileSystem.StaleBuffer
import DuckdbOpenzl.FileSystem.StoreRefinement
import DuckdbOpenzl.FileSystem.WholeArchives
import DuckdbOpenzl.Promote.ArchivedTables
import DuckdbOpenzl.Promote.Commits
import DuckdbOpenzl.Promote.Statements
import DuckdbOpenzl.Session.Integers
import DuckdbOpenzl.Session.ScalarFunctions
import DuckdbOpenzl.Train.SelectSamples
import DuckdbOpenzl.Train.TrainedRows
