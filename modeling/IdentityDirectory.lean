import IdentityDirectory.Login.Tokens
import IdentityDirectory.Proofs.Work.Laws
import IdentityDirectory.Settings
import IdentityDirectory.UnitOfWork
import IdentityDirectory.Proofs.Rows.ExpiryIndex
import IdentityDirectory.Proofs.Rows.Refinement
import IdentityDirectory.Proofs.Index.Rows
import IdentityDirectory.Proofs.Index.Mirror
import IdentityDirectory.Proofs.Index.Entity
import IdentityDirectory.Proofs.Index.Lookup
import IdentityDirectory.Proofs.Index.History
import IdentityDirectory.Proofs.Work.World
import IdentityDirectory.Proofs.Session.Removal
import IdentityDirectory.Proofs.Session.Operations
import IdentityDirectory.Proofs.Session.Listing
import IdentityDirectory.Proofs.Index.Claims
import IdentityDirectory.Proofs.Registry.Basic
import IdentityDirectory.Proofs.Registry.Removal
import IdentityDirectory.Proofs.Registry.Storing
import IdentityDirectory.Proofs.Registry.Named
import IdentityDirectory.Proofs.Registry.UserClaims
import IdentityDirectory.Proofs.Registry.Users
import IdentityDirectory.Proofs.Registry.Uniqueness
import IdentityDirectory.Proofs.Container.Edits
import IdentityDirectory.Proofs.Container.WriteBack
import IdentityDirectory.Proofs.Container.Commit
import IdentityDirectory.Proofs.Container.Removal
import IdentityDirectory.Proofs.Container.Operations
import IdentityDirectory.Proofs.Container.Races
import IdentityDirectory.Proofs.Rows.Calls
import IdentityDirectory.Proofs.Rows.Deadlines
import IdentityDirectory.Proofs.Rows.PlainMap
import IdentityDirectory.Proofs.Registry.Lookups
import IdentityDirectory.Proofs.Registry.Memories
import IdentityDirectory.Proofs.Registry.Staleness
import IdentityDirectory.Proofs.Registry.Agreement
import IdentityDirectory.Proofs.Container.Drafts
import IdentityDirectory.Proofs.Container.DeferredWrites
import IdentityDirectory.Proofs.Access.Links
import IdentityDirectory.Proofs.Access.Authorization
import IdentityDirectory.Proofs.Container.Prefix
import IdentityDirectory.Proofs.Session.Calls
import IdentityDirectory.Proofs.Session.Lifetime
import IdentityDirectory.Proofs.Isolation.Rows
import IdentityDirectory.Proofs.Isolation.Rules
import IdentityDirectory.Proofs.Isolation.Accesses
import IdentityDirectory.Proofs.Isolation.Users
import IdentityDirectory.Proofs.Isolation.Clients
import IdentityDirectory.Proofs.Isolation.Containers
import IdentityDirectory.Proofs.Isolation.Logins
import IdentityDirectory.Proofs.Isolation.Sessions
import IdentityDirectory.Proofs.Isolation.Tenants
import IdentityDirectory.Proofs.Role.Names
import IdentityDirectory.Proofs.Isolation.Footprint
import IdentityDirectory.Proofs.Memory.Rules
import IdentityDirectory.Proofs.Memory.Sessions
import IdentityDirectory.Proofs.Memory.Users
import IdentityDirectory.Proofs.Directory.Removal
import IdentityDirectory.Proofs.Memory.Tenancy
import IdentityDirectory.Proofs.Registry.Refusals
import IdentityDirectory.Proofs.Registry.Namesakes
import IdentityDirectory.Proofs.Registry.Attributes
import IdentityDirectory.Proofs.Group.Hierarchy
import IdentityDirectory.Proofs.Login.Redemption
import IdentityDirectory.Proofs.Isolation.Region
import IdentityDirectory.Proofs.Registry.Identity
import IdentityDirectory.Proofs.Registry.Orderly
import IdentityDirectory.Proofs.Registry.Forgery
import IdentityDirectory.Proofs.Index.Extent
import IdentityDirectory.Proofs.Session.Passes
import IdentityDirectory.Proofs.Registry.Extent
import IdentityDirectory.Proofs.Registry.Answers
import IdentityDirectory.Proofs.Container.Changes
import IdentityDirectory.Proofs.Directory.Traces
import IdentityDirectory.Proofs.Directory.Departures
import IdentityDirectory.Proofs.Session.Timeouts
import IdentityDirectory.Proofs.Work.Expirations
import IdentityDirectory.Proofs.Index.Takeover
import IdentityDirectory.Proofs.Directory.Omissions
import IdentityDirectory.Proofs.Role.Expansion
import IdentityDirectory.Proofs.Group.Lineage
import IdentityDirectory.Proofs.Login.Attempts
import IdentityDirectory.Proofs.Rows.Encodings
import IdentityDirectory.Proofs.Login.Failures
import IdentityDirectory.Proofs.Rows.Sweep
