import WalletUsers.Txn.Program
import WalletUsers.Txn.Interleaving
import WalletUsers.Txn.Serializability
import WalletUsers.Python.Decimal
import WalletUsers.Money
import WalletUsers.Models
import WalletUsers.Errors
import WalletUsers.Python.Text
import WalletUsers.Promos
import WalletUsers.Pricing
import WalletUsers.Statements
import WalletUsers.Crud
import WalletUsers.Locking
import WalletUsers.Isolation
import WalletUsers.Serial
import WalletUsers.Effects
import WalletUsers.Outcome
import WalletUsers.Account.Running
import WalletUsers.Ledger
import WalletUsers.Coupons
import WalletUsers.Idempotency
import WalletUsers.History
import WalletUsers.Python.DecimalText
import WalletUsers.Python.Json
import WalletUsers.Schemas
import WalletUsers.Api
import WalletUsers.Exactness
import WalletUsers.Requests
import WalletUsers.Conservation
import WalletUsers.Fingerprint
import WalletUsers.Retries
import WalletUsers.Quotes
import WalletUsers.Amounts
import WalletUsers.Overflow
import WalletUsers.Advisory
import WalletUsers.Txn.LockOrder
import WalletUsers.Deadlock
import WalletUsers.Freeze
import WalletUsers.Migration
import WalletUsers.Account.Pages
import WalletUsers.Paging
import WalletUsers.IdealPricing
import WalletUsers.Carts
import WalletUsers.Precision
import WalletUsers.Spelling
import WalletUsers.CouponChecks
import WalletUsers.Runs.Unwinding
import WalletUsers.Slices
import WalletUsers.Separation
import WalletUsers.Committed
import WalletUsers.Extension
import WalletUsers.Links
import WalletUsers.Liveness
import WalletUsers.Contention
import WalletUsers.Receipts
import WalletUsers.Columns.Api
import WalletUsers.Columns.Audit
import WalletUsers.Refusals
import WalletUsers.Limits
import WalletUsers.Columns.Responses
import WalletUsers.Columns.Answers
