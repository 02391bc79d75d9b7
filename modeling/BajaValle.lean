import BajaValle.Acceptability
import BajaValle.AccountBook
import BajaValle.AccountDeletion
import BajaValle.Admission
import BajaValle.Api
import BajaValle.ApiAccess
import BajaValle.ApiComponents
import BajaValle.ApiLimits
import BajaValle.ApiLog
import BajaValle.Auth
import BajaValle.Authorization
import BajaValle.BookLogins
import BajaValle.BookProfiles
import BajaValle.BookRefinement
import BajaValle.BookRows
import BajaValle.CartMail
import BajaValle.CartSheet
import BajaValle.CatalogRaces
import BajaValle.Categories
import BajaValle.ContactMail
import BajaValle.Credentials
import BajaValle.Database
import BajaValle.DeadSessions
import BajaValle.Decimals
import BajaValle.Decryption
import BajaValle.Doubles
import BajaValle.DummyHash
import BajaValle.EmailClaims
import BajaValle.Enciphered
import BajaValle.Encryption
import BajaValle.FailedRequests
import BajaValle.FailingLogins
import BajaValle.Families
import BajaValle.Guards
import BajaValle.IdPipes
import BajaValle.Isolation
import BajaValle.JsNumber
import BajaValle.KeyRotation
import BajaValle.KeySets
import BajaValle.Lib.Base64
import BajaValle.Lib.BoundedCalls
import BajaValle.Lib.CallPrograms
import BajaValle.Lib.Embeddings
import BajaValle.Lib.Escaping
import BajaValle.Lib.Footprints
import BajaValle.Lib.Interleaving
import BajaValle.Lib.KeyedStore
import BajaValle.Lib.Linearization
import BajaValle.Lib.Lockout
import BajaValle.Lib.Markup
import BajaValle.Lib.Projections
import BajaValle.Lib.RelatedTables
import BajaValle.Lib.Remainders
import BajaValle.Lib.SerialRuns
import BajaValle.LockoutPolicy
import BajaValle.LoginAlone
import BajaValle.Mailing
import BajaValle.ParallelGuessing
import BajaValle.PasswordBarrier
import BajaValle.PasswordPolicy
import BajaValle.Passwords
import BajaValle.PersonalData
import BajaValle.PhcStrings
import BajaValle.PlaintextStore
import BajaValle.Platform
import BajaValle.ProductCatalog
import BajaValle.Products
import BajaValle.Progress
import BajaValle.Provenance
import BajaValle.RateBounds
import BajaValle.RateLimits
import BajaValle.Reencrypt
import BajaValle.Refreshes
import BajaValle.Rehashing
import BajaValle.Requests
import BajaValle.ReuseDetection
import BajaValle.Revocation
import BajaValle.RotationDeletions
import BajaValle.RotationRaces
import BajaValle.Rules
import BajaValle.SeedAdmin
import BajaValle.Serial
import BajaValle.Server
import BajaValle.Sessions
import BajaValle.SimultaneousRefreshes
import BajaValle.Steps
import BajaValle.StoreRefinement
import BajaValle.Subjects
import BajaValle.Tables
import BajaValle.Text
import BajaValle.Throttling
import BajaValle.Users
import BajaValle.Validators
import BajaValle.Worksheets
