import Folio.Desk.Run
import Folio.Flight.Schedule
import Folio.Proofs.Cache.Inclusion
import Folio.Proofs.Cache.Recency
import Folio.Proofs.Decimal.Shortest
import Folio.Proofs.Desk.Modes
import Folio.Proofs.Desk.Pooling
import Folio.Proofs.Desk.Refused
import Folio.Proofs.Flight.Abandoned
import Folio.Proofs.Flight.Accounts
import Folio.Proofs.Flight.Delivery
import Folio.Proofs.Flight.Economy
import Folio.Proofs.Flight.Refinement
import Folio.Proofs.Markup.Meaning
import Folio.Proofs.Markup.Parts
import Folio.Proofs.Markup.Scanning
import Folio.Proofs.Page.Declared
import Folio.Proofs.Page.Embedded
import Folio.Proofs.Page.GlobalRules
import Folio.Proofs.Page.RoundTrip
import Folio.Proofs.Page.Written
import Folio.Proofs.Pool.Books
import Folio.Proofs.Site.Attached
import Folio.Proofs.Site.Faithful
import Folio.Proofs.Site.HeadLines
import Folio.Proofs.Site.Hydrated
import Folio.Proofs.Site.Inert
import Folio.Proofs.Site.Minified
import Folio.Proofs.Site.Needed
import Folio.Proofs.Site.Persisted
import Folio.Proofs.Site.Renamed
import Folio.Proofs.Site.Renewed
import Folio.Proofs.Site.Sealed
import Folio.Proofs.Site.Stranded
import Folio.Proofs.Site.Styled
import Folio.Proofs.Site.Warmed
import Folio.Proofs.Site.Workshop
import Folio.Proofs.Snapshot.Codec
import Folio.Proofs.Style.ClassNames
import Folio.Proofs.Style.Passes
import Folio.Proofs.Style.Rebuilt
import Folio.Proofs.Style.Recleaned
import Folio.Proofs.Text.Entities
import Folio.Proofs.Text.KebabGrammar
import Folio.Settings.Environment
import Folio.Settings.File
import Folio.Text.Quoted
