import Offside.Main
import Offside.Proofs.Grammar.Counting
import Offside.Proofs.Grammar.Faultless
import Offside.Proofs.Grammar.Ladder
import Offside.Proofs.Grammar.Layout
import Offside.Proofs.Grammar.Locations
import Offside.Proofs.Grammar.Lookahead
import Offside.Proofs.Grammar.Relocation
import Offside.Proofs.Grammar.Rollback
import Offside.Proofs.Grammar.SeveralVariadics
import Offside.Proofs.Grammar.TypeArguments
import Offside.Proofs.Grammar.Watching
import Offside.Proofs.Grammar.WholeProgram
import Offside.Proofs.Packrat.Collecting
import Offside.Proofs.RoundTrip.Formatting
import Offside.Proofs.RoundTrip.Literals
import Offside.Proofs.RoundTrip.Standalone
import Offside.Proofs.Session.Progress
import Offside.Proofs.Source.LineBreak
import Offside.Proofs.Tree.Entry
import Offside.Proofs.Tree.Parts
