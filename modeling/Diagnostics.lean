import Diagnostics.Session
import Diagnostics.Number.Decimal
import Diagnostics.Proofs.Json.Numbers
import Diagnostics.Proofs.Json.Continued
import Diagnostics.Proofs.Json.ReadBack
import Diagnostics.Proofs.Data.Portable
import Diagnostics.Proofs.Data.Normal
import Diagnostics.Proofs.Store.View
import Diagnostics.Proofs.Exchange.Content
import Diagnostics.Proofs.Exchange.Written
import Diagnostics.Proofs.Exchange.Made
import Diagnostics.Proofs.Validation.FromJson
import Diagnostics.Proofs.Validation.Built
import Diagnostics.Proofs.Exchange.RoundTrip
import Diagnostics.Proofs.Validation.Misfits
import Diagnostics.Proofs.Exchange.Settled
import Diagnostics.Proofs.Exchange.Twins
import Diagnostics.Proofs.Validation.Agreement
import Diagnostics.Proofs.Exchange.Parsed
import Diagnostics.Proofs.Exchange.Elementwise
import Diagnostics.Proofs.Exchange.Plain
import Diagnostics.Proofs.Store.Calm
import Diagnostics.Proofs.Action.Calm
import Diagnostics.Proofs.Store.WellFormed
import Diagnostics.Proofs.Validation.Drafts
import Diagnostics.Proofs.Record.WellFormed
import Diagnostics.Proofs.Builder.WellFormed
import Diagnostics.Proofs.Attribute.Total
import Diagnostics.Proofs.Builder.Rebound
import Diagnostics.Proofs.Exchange.WellFormed
import Diagnostics.Proofs.Session.WellFormed
import Diagnostics.Proofs.Store.Reach
import Diagnostics.Proofs.Store.Spared
import Diagnostics.Proofs.Builder.Edits
import Diagnostics.Proofs.Builder.Copied
import Diagnostics.Proofs.Builder.Separate
import Diagnostics.Proofs.Builder.Steps
import Diagnostics.Proofs.Builder.Sketch
import Diagnostics.Proofs.Builder.Runs
import Diagnostics.Proofs.Builder.Plans
import Diagnostics.Proofs.Builder.Equivalent
import Diagnostics.Proofs.Record.Parted
import Diagnostics.Proofs.Builder.Parted
import Diagnostics.Proofs.Session.Ownership
import Diagnostics.Proofs.Builder.OneByOne
import Diagnostics.Proofs.Attribute.Position
import Diagnostics.Proofs.Builder.OwnList
import Diagnostics.Proofs.Number.Spelled
import Diagnostics.Proofs.Validation.Accepted
import Diagnostics.Proofs.Data.Literals
import Diagnostics.Proofs.Validation.Refused
import Diagnostics.Proofs.Record.TwoWays
import Diagnostics.Proofs.Validation.Listed
import Diagnostics.Proofs.Validation.Issues
import Diagnostics.Proofs.Store.Written
import Diagnostics.Proofs.Store.Akin
import Diagnostics.Proofs.Validation.Renewed
import Diagnostics.Proofs.Exchange.Complete
import Diagnostics.Proofs.Validation.Spellings
import Diagnostics.Proofs.Json.Steps
import Diagnostics.Proofs.Json.Settled
import Diagnostics.Proofs.Json.Around
import Diagnostics.Proofs.Json.Ranges
import Diagnostics.Proofs.Exchange.Respelled
import Diagnostics.Proofs.Exchange.Spellings
import Diagnostics.Proofs.ByteRange.Interval
import Diagnostics.Proofs.Json.OneLine
import Diagnostics.Proofs.Exchange.OneLine
import Diagnostics.Proofs.Exchange.Logged
import Diagnostics.Proofs.Json.Members
import Diagnostics.Proofs.Json.Similar
import Diagnostics.Proofs.Json.Rearranged
import Diagnostics.Proofs.Exchange.Rearranged
import Diagnostics.Proofs.Data.Comparisons
import Diagnostics.Proofs.Sorting.Cut
import Diagnostics.Proofs.Sorting.Merged
import Diagnostics.Proofs.Sorting.Sorted
import Diagnostics.Proofs.Session.Ranked
import Diagnostics.Proofs.Outline.Bare
import Diagnostics.Proofs.Outline.Quoted
import Diagnostics.Proofs.Outline.Spelled
import Diagnostics.Proofs.Outline.ToldApart
import Diagnostics.Proofs.Store.Literal
import Diagnostics.Proofs.Store.Spelled
import Diagnostics.Proofs.Builder.Extended
