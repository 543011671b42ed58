import NfsPlayground.Fixture.ExportOpts
import NfsPlayground.Fixture.Flags
import NfsPlayground.Fixture.Scratch
import NfsPlayground.Fixture.DumpLog
import NfsPlayground.Fixture.RunProgSafe
import NfsPlayground.Fixture.WriteNewFile
import NfsPlayground.Creds.Balance
import NfsPlayground.G075.Sync
import NfsPlayground.Wiring.Rerun
import NfsPlayground.Wiring.CaseInit
import NfsPlayground.Wiring.LeftStatic
import NfsPlayground.Ci.Exports
import NfsPlayground.Ci.Sizing
import NfsPlayground.Ci.UmlEnv
import NfsPlayground.Coverage.Roots
import NfsPlayground.Ports.SkipRules
import NfsPlayground.Races.G084
import NfsPlayground.Races.G310
import NfsPlayground.Races.G364
import NfsPlayground.Races.G438
import NfsPlayground.Races.G028
import NfsPlayground.Races.Joins
import NfsPlayground.Races.G133
import NfsPlayground.Races.Marks
import NfsPlayground.Races.MarksJoined
import NfsPlayground.Races.Passes
import NfsPlayground.Races.SafeMarks
import NfsPlayground.Races.Safe133
import NfsPlayground.Races.Handoff
import NfsPlayground.Races.Splice
import NfsPlayground.Races.Aborts028
import NfsPlayground.Races.Moves707
import NfsPlayground.Races.Mixed464
import NfsPlayground.Coverage.Diff
import NfsPlayground.Generic.AllocSize
import NfsPlayground.Generic.G339
import NfsPlayground.Generic.G001Clean
import NfsPlayground.Dirs.Walks
import NfsPlayground.Dirs.OneShot
import NfsPlayground.Dirs.G257
import NfsPlayground.Dirs.G100Accepts
import NfsPlayground.Files.G286
import NfsPlayground.Files.Patterns
import NfsPlayground.Files.G014
import NfsPlayground.Files.G129
import NfsPlayground.Files.G337
import NfsPlayground.Storms.G011
import NfsPlayground.Storms.G013
import NfsPlayground.Storms.G007
import NfsPlayground.Storms.G070
import NfsPlayground.Ci.Restored
