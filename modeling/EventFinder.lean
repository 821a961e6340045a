import EventFinder.Main
import EventFinder.Proofs.Csv.TabulatedBatch
import EventFinder.Proofs.Failure
import EventFinder.Proofs.Json.ShownBatch
import EventFinder.Proofs.Levels
import EventFinder.Proofs.Location.Meaning
import EventFinder.Proofs.Location.Mismatch
import EventFinder.Proofs.Location.NameLists
import EventFinder.Proofs.Location.NumberModes
import EventFinder.Proofs.Location.OmittedField
import EventFinder.Proofs.Location.Reading
import EventFinder.Proofs.Location.Runs
import EventFinder.Proofs.Pattern.Diagnosis
import EventFinder.Proofs.Pattern.Rendering
import EventFinder.Proofs.Search
import EventFinder.Proofs.Settings.Layers
import EventFinder.Proofs.Settings.ShownSettings
import EventFinder.Proofs.StoredEvents
import EventFinder.Proofs.Text.BoundarySearch
import EventFinder.Proofs.Tree.FirstFailure
import EventFinder.Proofs.Viewpoint
