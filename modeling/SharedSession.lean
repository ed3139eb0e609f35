import SharedSession.Host.Browser
import SharedSession.Main
import SharedSession.Storage.Script
import SharedSession.Proofs.Lock.Fidelity
import SharedSession.Proofs.Lock.LostUpdate
import SharedSession.Proofs.Lock.Solo
import SharedSession.Proofs.Host.Course
import SharedSession.Proofs.Lock.Acts
import SharedSession.Proofs.Lock.Service
import SharedSession.Proofs.Storage.Keeper
import SharedSession.Proofs.Lock.Undisturbed
import SharedSession.Proofs.Lock.Sequence
import SharedSession.Proofs.Lock.Abandonment
import SharedSession.Proofs.Lock.BlindWrite
import SharedSession.Proofs.Lock.Passage
import SharedSession.Proofs.Product.Coexistence
import SharedSession.Proofs.Product.Alternation
import SharedSession.Proofs.Lock.InHand
import SharedSession.Proofs.Product.Ending
import SharedSession.Proofs.Host.Waning
import SharedSession.Proofs.Product.Cause
import SharedSession.Proofs.Product.Mirror
import SharedSession.Proofs.Lock.OneByOne
import SharedSession.Proofs.Host.Beat
import SharedSession.Proofs.Host.Waiting
import SharedSession.Proofs.Product.Spans
import SharedSession.Proofs.Product.Tracking
import SharedSession.Proofs.Product.Polling
import SharedSession.Proofs.Product.Order
import SharedSession.Proofs.Record.Pieces
import SharedSession.Proofs.Lock.Retrying
import SharedSession.Proofs.CommandLine.Removal
import SharedSession.Proofs.Lock.TryByTry
import SharedSession.Proofs.Lock.NoTrace
import SharedSession.Proofs.Host.Stopping
import SharedSession.Proofs.History.Retention
import SharedSession.Proofs.Host.Throttling
import SharedSession.Proofs.Lock.AtRest
import SharedSession.Proofs.Lock.Grounds
import SharedSession.Proofs.Product.Prolonging
import SharedSession.Proofs.Record.Dates
import SharedSession.Proofs.Storage.Interchange
import SharedSession.Proofs.Config.RoundTrip
