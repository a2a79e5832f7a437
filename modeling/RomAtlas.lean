import RomAtlas.Listing
import RomAtlas.Project
import RomAtlas.Proofs.Atlas.Confirmed
import RomAtlas.Proofs.Atlas.OneWidth
import RomAtlas.Proofs.Atlas.Reported
import RomAtlas.Proofs.Decode.Faithful
import RomAtlas.Proofs.Hint.Growth
import RomAtlas.Proofs.Hint.Removal
import RomAtlas.Proofs.Label
import RomAtlas.Proofs.Listing
import RomAtlas.Proofs.Region.Arrival
import RomAtlas.Proofs.Region.OverrideReports
import RomAtlas.Proofs.Trace.Budget
import RomAtlas.Proofs.Trace.Transfers
import RomAtlas.Proofs.Trace.Union
import RomAtlas.Proofs.Trace.Vectors
import RomAtlas.Proofs.Carry
import RomAtlas.Proofs.Decode.Targets
import RomAtlas.Proofs.Decode.Mirrored
import RomAtlas.Proofs.Decode.Text
import RomAtlas.Proofs.Hint.Tables
import RomAtlas.Proofs.SavedWidths
import RomAtlas.Proofs.Region.RoundTrip
import RomAtlas.Proofs.Label.Evidence
import RomAtlas.Proofs.Hint.Pointers
import RomAtlas.Proofs.Listing.Shape
import RomAtlas.Proofs.Label.Inside
import RomAtlas.Proofs.Listing.Labelled
import RomAtlas.Proofs.Numeral
import RomAtlas.Proofs.Config
import RomAtlas.Proofs.Report
import RomAtlas.Proofs.Atlas.ReportOrder
import RomAtlas.Proofs.Trace.Convoy
