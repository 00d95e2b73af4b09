import Bourse.Generator
import Bourse.Main
import Bourse.Rehearsal.Pass
import Bourse.Rehearsal.Paced
import Bourse.Proofs.Decimal.Rounding
import Bourse.Proofs.Decimal.Sums
import Bourse.Proofs.Order.Steps
import Bourse.Proofs.Store.Calls
import Bourse.Proofs.Store.Conservation
import Bourse.Proofs.Task
import Bourse.Proofs.Ledger.Holdings
import Bourse.Proofs.Ledger.Calls
import Bourse.Proofs.Reserve.Orders
import Bourse.Proofs.Reserve.Trades
import Bourse.Proofs.Reserve.Invariant
import Bourse.Proofs.Matching.Candidates
import Bourse.Proofs.Reserve.Settling
import Bourse.Proofs.Reserve.Matching
import Bourse.Proofs.Reserve.Placing
import Bourse.Proofs.Reserve.Operations
import Bourse.Proofs.Settlement.Workers
import Bourse.Proofs.Settlement.Log
import Bourse.Proofs.Settlement.Once
import Bourse.Proofs.Matching.Priority
import Bourse.Proofs.Matching.Selection
import Bourse.Proofs.Store.Regular
import Bourse.Proofs.Matching.Timeless
import Bourse.Proofs.Matching.Agreement
import Bourse.Proofs.Ledger.Conservation
import Bourse.Proofs.Order.Lifecycle
import Bourse.Proofs.Store.Lifecycle
import Bourse.Proofs.Settlement.Calls
import Bourse.Proofs.Trade.Legitimate
import Bourse.Proofs.Trade.Floor
import Bourse.Proofs.Matching.Quiet
import Bourse.Proofs.Matching.Insertions
import Bourse.Proofs.Matching.Arrivals
import Bourse.Proofs.Matching.Uncrossed
import Bourse.Proofs.Ledger.Solvent
import Bourse.Proofs.Store.Restart
import Bourse.Proofs.Settlement.Outbox
import Bourse.Proofs.Settlement.Claims
import Bourse.Proofs.Settlement.InFlight
import Bourse.Proofs.Settlement.Holders
import Bourse.Proofs.Store.Commit
import Bourse.Proofs.Matching.MarketView
import Bourse.Proofs.Matching.MarketRun
import Bourse.Proofs.Matching.Scan
import Bourse.Proofs.Trade.Untraded
import Bourse.Proofs.Races.Clerks
import Bourse.Proofs.Races.Office
import Bourse.Proofs.Races.OneWinner
import Bourse.Proofs.Wire.Snapshots
import Bourse.Proofs.Matching.BestMatch
import Bourse.Proofs.Decimal.Exact
import Bourse.Proofs.Order.Fills
import Bourse.Proofs.Reserve.Purchases
import Bourse.Proofs.Matching.Exhausted
import Bourse.Proofs.Settlement.Rounds
import Bourse.Proofs.Failures.Trades
import Bourse.Proofs.Matching.Partners
import Bourse.Proofs.Matching.Roles
import Bourse.Proofs.Matching.Counterparty
import Bourse.Proofs.Store.Numbered
import Bourse.Proofs.Ledger.Atomic
import Bourse.Proofs.Store.Roles
import Bourse.Proofs.Wire.Symbols
import Bourse.Proofs.Store.Listings
import Bourse.Proofs.Failures.Cancelling
import Bourse.Proofs.Config.Settings
